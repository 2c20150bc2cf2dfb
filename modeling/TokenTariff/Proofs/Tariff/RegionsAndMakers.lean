import TokenTariff.Proofs.Tariff.LooseMatches
import TokenTariff.Proofs.Tariff.SearchedWords
import TokenTariff.Tariff.Cost
/-!
# Names behind a region or a maker

A region in front of a name is taken off as long as names are compared as they are written. The
last two ways of the search take it as a part of the name. So a name keeps its price behind a region
if it is listed, or if the normal form of its model lies inside its own; it may lose a price that it
has only as a part of a longer name (`Table.name_behind_region_is_priced`).

The request for a listed model costs the same behind a region, a maker, or both
(`Table.cost_behind_region_and_maker`): besides the model, the cost depends on the name only through
a few words that are searched for in lower case, and no such word begins in front of the name.

* `spellings_region_append`, `spellings_maker_append`: what is looked for behind a region or a maker;
* `containsText_lowercase_start`: no word is found in front of a name, nor half in front of it.
-/

namespace TokenTariff
set_option autoImplicit false

namespace ModelName
open Text

/-! ## Spellings -/

theorem spellings_region_append {region : String} (h : IsRegion region) (name : String) :
    spellings (region ++ name) = [region ++ name, name, withoutMaker name] := by
  have codex : region ++ name ≠ "gpt-5-codex" := h.append_ne (by decide +kernel) name
  rw [spellings, if_neg codex, withoutRegion_append h]
  rfl

theorem withoutRegion_maker_append (name : String) :
    withoutRegion (maker ++ name) = maker ++ name := by
  refine withoutRegion_of_no_region fun front rest ⟨region, mem, same⟩ split => ?_
  have chars : region.toList.map Char.toLower = front.toList.map Char.toLower := same
  have lower := congrArg (fun text => text.toList.map Char.toLower) split
  simp only [String.toList_append, List.map_append, ← chars] at lower
  simp only [regions, List.mem_cons, List.not_mem_nil, or_false] at mem
  rcases mem with rfl | rfl | rfl <;> simp [maker] at lower

theorem spellings_maker_append (name : String) :
    spellings (maker ++ name) = [maker ++ name, maker ++ name, name] := by
  have codex : maker ++ name ≠ "gpt-5-codex" := by
    intro same
    have first := congrArg (fun text => text.toList.head?) same
    simp [maker] at first
  rw [spellings, if_neg codex, withoutRegion_maker_append, withoutMaker_append]
  rfl

/-! ## Words in lower case -/

/-- What may stand before a name, in lower case. -/
def starts : List String :=
  maker :: regions

theorem containsText_start_append {start word : String} (begins : start ∈ starts)
    (mem : word ∈ words) (rest : String) :
    containsText (start ++ rest) word = containsText rest word := by
  have apart : ∀ start ∈ starts, start.toList.getLast? = some '.' ∧
      ∀ word ∈ words, '.' ∉ word.toList ∧ containsText start word = false := by decide +kernel
  obtain ⟨ends, absent⟩ := apart start begins
  obtain ⟨plain, absent⟩ := absent word mem
  exact containsText_append_of_point rest ends plain absent

theorem containsText_lowercase_start {front word : String} (begins : lowercase front ∈ starts)
    (mem : word ∈ words) (name : String) :
    containsText (lowercase (front ++ name)) word = containsText (lowercase name) word := by
  rw [lowercase_append, containsText_start_append begins mem]

theorem lowercase_maker_mem : lowercase maker ∈ starts := by decide +kernel

theorem IsRegion.lowercase_mem_starts {region : String} (h : IsRegion region) :
    lowercase region ∈ starts :=
  List.mem_cons_of_mem _ h.lowercase_mem

end ModelName

namespace Table
open ModelName Text

variable {document : Bytes} {table : Table}

/-! ## Names behind a region -/

theorem isSome_resolve_region_iff (accepted : read document = .ok table) {region : String}
    (h : IsRegion region) (name : String) :
    (table.resolve (region ++ name)).isSome ↔
      name ∈ table.listed ∨ withoutMaker name ∈ table.listed ∨
        ∃ key ∈ table.listed, Overlap (normalForm key) (normalForm (region ++ name)) := by
  have form := normalForm_ne_empty_of_append name h.normalForm_ne_empty
  have given : region ++ name ≠ "" := fun empty => form (by rw [empty]; rfl)
  have itself : Overlap (normalForm (region ++ name)) (normalForm (region ++ name)) :=
    (overlap_of_contains (containsText_refl _) form).1
  rw [isSome_resolve_iff accepted, isSome_meaning_iff, spellings_region_append h]
  constructor
  · rintro ⟨-, ⟨spelling, mem, listed⟩ | ⟨key, listed, same⟩ | overlapping⟩
    · simp only [List.mem_cons, List.not_mem_nil, or_false] at mem
      rcases mem with rfl | rfl | rfl
      · exact .inr (.inr ⟨_, listed, itself⟩)
      · exact .inl listed
      · exact .inr (.inl listed)
    · exact .inr (.inr ⟨key, listed, same ▸ itself⟩)
    · exact .inr (.inr overlapping)
  · rintro (listed | listed | overlapping)
    · exact ⟨given, .inl ⟨name, by simp, listed⟩⟩
    · exact ⟨given, .inl ⟨withoutMaker name, by simp, listed⟩⟩
    · exact ⟨given, .inr (.inr overlapping)⟩

/-- A name behind a region, in whatever case it is written, has a price if and only if the name is
listed, with or without its maker, or some listed model has a normal form that overlaps with that of
the whole. So it has one if the name alone means itself, or itself without its maker, or a model
whose normal form is not empty and lies inside that of the name. A price that is lost is that of a
name that is not listed, and of a model whose normal form is empty or longer than that of the
name. -/
theorem name_behind_region_is_priced (accepted : read document = .ok table) {region : String}
    (h : IsRegion region) (name : String) :
    ((table.resolve (region ++ name)).isSome ↔
      name ∈ table.listed ∨ withoutMaker name ∈ table.listed ∨
        ∃ key ∈ table.listed, Overlap (normalForm key) (normalForm region ++ normalForm name)) ∧
    (∀ found, table.resolve name = some found →
      found.key = name ∨ found.key = withoutMaker name ∨
        normalForm found.key ≠ "" ∧ containsText (normalForm name) (normalForm found.key) →
      (table.resolve (region ++ name)).isSome) ∧
    (∀ found, table.resolve name = some found → table.resolve (region ++ name) = none →
      name ∉ table.listed ∧ withoutMaker name ∉ table.listed ∧
        (normalForm found.key = "" ∨
          containsText (normalForm found.key) (normalForm name) ∧
            normalForm found.key ≠ normalForm name)) := by
  have priced := isSome_resolve_region_iff accepted h name
  rw [normalForm_append] at priced
  have meant {found : Resolved} (has : table.resolve name = some found) :
      meaning table.listed name = some found.key := by
    rw [← map_key_resolve accepted, has, Option.map_some]
  have kept {found : Resolved} (has : table.resolve name = some found)
      (nonempty : normalForm found.key ≠ "")
      (inside : containsText (normalForm name) (normalForm found.key) = true) :
      (table.resolve (region ++ name)).isSome := by
    have whole := containsText_append_left (normalForm region) inside
    exact priced.2 (.inr (.inr ⟨_, meaning_mem (meant has), (overlap_of_contains whole nonempty).2⟩))
  refine ⟨priced, fun found has way => ?_, fun found has lost => ?_⟩
  · have listed := meaning_mem (meant has)
    rcases way with same | same | ⟨nonempty, inside⟩
    · exact priced.2 (.inl (same ▸ listed))
    · exact priced.2 (.inr (.inl (same ▸ listed)))
    · exact kept has nonempty inside
  · rw [lost] at priced
    obtain ⟨plain, rest⟩ := not_or.1 (priced.not.1 (by simp))
    refine ⟨plain, (not_or.1 rest).1, ?_⟩
    by_cases nonempty : normalForm found.key = ""
    · exact .inl nonempty
    have outside : ¬ containsText (normalForm name) (normalForm found.key) = true := by
      intro inside
      have still := kept has nonempty inside
      rw [lost] at still
      cases still
    rcases containsText_of_meaning (meant has) with inside | longer
    · exact absurd inside outside
    · exact .inr ⟨longer, fun same => outside (same ▸ containsText_refl _)⟩

/-- Two names that have a price and lose it behind a region: one that is only the beginning of a
listed name, and one of which nothing is left in normal form. -/
theorem name_behind_region_loses_price :
    IsRegion "us." ∧
    (∃ table, read (Bytes.ofText
        "\x7b\"claude-sonnet-4-20250514\":\x7b\"input_cost_per_token\":0.000003\x7d\x7d") = .ok table ∧
      (table.resolve "claude-sonnet-4").isSome ∧
      table.resolve ("us." ++ "claude-sonnet-4") = none) ∧
    ∃ table, read (Bytes.ofText "\x7b\"_\":\x7b\x7d\x7d") = .ok table ∧
      (table.resolve "-").isSome ∧ table.resolve ("us." ++ "-") = none := by
  refine ⟨⟨"us.", by decide, rfl⟩, ?_, ?_⟩
  · have facts : (read (Bytes.ofText
        "\x7b\"claude-sonnet-4-20250514\":\x7b\"input_cost_per_token\":0.000003\x7d\x7d")).toOption.map
          (fun table => ((table.resolve "claude-sonnet-4").isSome,
            (table.resolve ("us." ++ "claude-sonnet-4")).isNone)) = some (true, true) := by
      decide +kernel
    obtain ⟨table, accepted, facts⟩ := Option.map_eq_some_iff.1 facts
    simp only [Prod.mk.injEq, Option.isNone_iff_eq_none] at facts
    exact ⟨table, toOption_eq_some_iff.1 accepted, facts⟩
  · have facts : (read (Bytes.ofText "\x7b\"_\":\x7b\x7d\x7d")).toOption.map (fun table =>
        ((table.resolve "-").isSome, (table.resolve ("us." ++ "-")).isNone)) =
        some (true, true) := by decide +kernel
    obtain ⟨table, accepted, facts⟩ := Option.map_eq_some_iff.1 facts
    simp only [Prod.mk.injEq, Option.isNone_iff_eq_none] at facts
    exact ⟨table, toOption_eq_some_iff.1 accepted, facts⟩

/-- A name with a date more than the listed one, which keeps its price behind a region. -/
theorem name_behind_region_is_priced_dated : ∃ table, read (Bytes.ofText
      "\x7b\"claude-sonnet-4\":\x7b\x7d\x7d") = .ok table ∧
    (table.resolve ("Apac." ++ "claude-sonnet-4-20250514")).isSome := by
  have facts : (read (Bytes.ofText "\x7b\"claude-sonnet-4\":\x7b\x7d\x7d")).toOption.map
      (fun table => (table.resolve "claude-sonnet-4-20250514").map Resolved.key) =
        some (some "claude-sonnet-4") := by decide +kernel
  obtain ⟨table, accepted, key⟩ := Option.map_eq_some_iff.1 facts
  have accepted := toOption_eq_some_iff.1 accepted
  obtain ⟨found, has, key⟩ := Option.map_eq_some_iff.1 key
  have region : IsRegion "Apac." := ⟨"apac.", by decide, by unfold SameInAnyCase; decide⟩
  obtain ⟨-, kept, -⟩ := name_behind_region_is_priced accepted region "claude-sonnet-4-20250514"
  have inside : normalForm found.key ≠ "" ∧ containsText
      (normalForm "claude-sonnet-4-20250514") (normalForm found.key) = true := by
    rw [key]
    decide +kernel
  exact ⟨table, accepted, kept found has (.inr (.inr inside))⟩

/-! ## Costs of listed models -/

theorem tierFor_of_single {name : String} {tier : Tier}
    (only : table.tiers.entries = [(name, tier)]) (model : String) :
    table.tierFor model = some tier := by
  rw [tierFor, Dictionary.get?, Dictionary.first?, only, Dictionary.lookup_cons_name]
  split <;> rfl

theorem cost_congr {a b : String} (resolve : table.resolve a = table.resolve b)
    (asks : asksForLongContext a = asksForLongContext b) (tier : table.tierFor a = table.tierFor b)
    (hour : table.hourRate a = table.hourRate b) (usage : Usage) :
    table.cost a usage = table.cost b usage := by
  simp only [cost, tierOf, resolve, asks, tier, hour]

/-- With the rates of a price list, the cost depends on the name through the model that it means and
the words in it. -/
theorem cost_eq_of_words (accepted : read document = .ok table) {a b : String}
    (meant : meaning table.listed a = meaning table.listed b)
    (same : ∀ word ∈ words, containsText (lowercase a) word = containsText (lowercase b) word)
    (usage : Usage) : table.cost a usage = table.cost b usage := by
  have resolved : table.resolve a = table.resolve b := by
    have indexed := isIndexed_of_read accepted
    rw [indexed.resolve_eq, indexed.resolve_eq, meant]
  obtain ⟨members, -, rfl⟩ := map_eq_ok_iff.1 accepted
  have family : Family.ofModel? a = Family.ofModel? b :=
    Family.ofModel?_congr fun family => same _ (word_mem_words family)
  refine cost_congr resolved (same _ longContextMark_mem_words) ?_ ?_ usage
  · exact (tierFor_of_single rfl a).trans (tierFor_of_single rfl b).symm
  · rw [ofFeed, hourRate_ofRates, hourRate_ofRates, family]

theorem find?_listed_of_not_mem {first : String} (rest : List String)
    (other : first ∉ table.listed) :
    (first :: rest).find? (· ∈ table.listed) = rest.find? (· ∈ table.listed) :=
  List.find?_cons_of_neg (by simpa using other)

/-- A request for a listed model costs the same behind a region, behind a maker, and behind both, as
long as the longer name and what is left of it without the region are not listed themselves. -/
theorem cost_behind_region_and_maker (accepted : read document = .ok table) {key region : String}
    (listed : key ∈ table.listed) (nonempty : key ≠ "") (h : IsRegion region) (usage : Usage) :
    (region ++ key ∉ table.listed → table.cost (region ++ key) usage = table.cost key usage) ∧
    (maker ++ key ∉ table.listed → table.cost (maker ++ key) usage = table.cost key usage) ∧
    (region ++ (maker ++ key) ∉ table.listed → maker ++ key ∉ table.listed →
      table.cost (region ++ (maker ++ key)) usage = table.cost key usage) := by
  have itself := meaning_of_mem listed nonempty
  have found (rest : List String) : (key :: rest).find? (· ∈ table.listed) = some key :=
    List.find?_cons_of_pos (by simpa using listed)
  have longer (front name : String) (given : name ≠ "") : front ++ name ≠ "" := fun empty =>
    given (String.append_eq_empty_iff.1 empty).2
  have behindRegion (name word : String) (mem : word ∈ words) :=
    containsText_lowercase_start h.lowercase_mem_starts mem name
  have behindMaker (word : String) (mem : word ∈ words) :=
    containsText_lowercase_start lowercase_maker_mem mem key
  have made := longer maker key nonempty
  refine ⟨fun other => ?_, fun other => ?_, fun other other' => ?_⟩
  · refine cost_eq_of_words accepted (Eq.trans ?_ itself.symm) (behindRegion key) usage
    apply meaning_of_find? (longer region key nonempty)
    rw [spellings_region_append h, find?_listed_of_not_mem _ other, found]
  · refine cost_eq_of_words accepted (Eq.trans ?_ itself.symm) behindMaker usage
    apply meaning_of_find? made
    rw [spellings_maker_append, find?_listed_of_not_mem _ other, find?_listed_of_not_mem _ other,
      found]
  · refine cost_eq_of_words accepted (Eq.trans ?_ itself.symm) (fun word mem => ?_) usage
    · apply meaning_of_find? (longer region _ made)
      rw [spellings_region_append h, withoutMaker_append, find?_listed_of_not_mem _ other,
        find?_listed_of_not_mem _ other', found]
    · rw [behindRegion _ word mem, behindMaker word mem]

/-- A listed model behind a region in two cases, behind a maker, and behind both. -/
theorem cost_behind_region_and_maker_two_cases : ∃ table, read (Bytes.ofText
      "\x7b\"claude-opus-4[1m]\":\x7b\"input_cost_per_token\":0.000015\x7d\x7d") = .ok table ∧
    ∀ usage, table.cost ("Us." ++ "claude-opus-4[1m]") usage = table.cost "claude-opus-4[1m]" usage ∧
      table.cost (maker ++ "claude-opus-4[1m]") usage = table.cost "claude-opus-4[1m]" usage ∧
      table.cost ("Us." ++ (maker ++ "claude-opus-4[1m]")) usage =
        table.cost "claude-opus-4[1m]" usage := by
  have names : (read (Bytes.ofText
      "\x7b\"claude-opus-4[1m]\":\x7b\"input_cost_per_token\":0.000015\x7d\x7d")).toOption.map
        (fun table => table.entries.names) = some ["claude-opus-4[1m]"] := by decide +kernel
  obtain ⟨table, accepted, names⟩ := Option.map_eq_some_iff.1 names
  have accepted := toOption_eq_some_iff.1 accepted
  have only : table.listed = ["claude-opus-4[1m]"].toFinset := by rw [listed, names]
  have mem : "claude-opus-4[1m]" ∈ table.listed := by
    rw [only]
    decide
  have region : IsRegion "Us." := ⟨"us.", by decide, by unfold SameInAnyCase; decide⟩
  refine ⟨table, accepted, fun usage => ?_⟩
  obtain ⟨behindRegion, behindMaker, behindBoth⟩ :=
    cost_behind_region_and_maker accepted mem (by decide) region usage
  exact ⟨behindRegion (by rw [only]; decide +kernel), behindMaker (by rw [only]; decide +kernel),
    behindBoth (by rw [only]; decide +kernel) (by rw [only]; decide +kernel)⟩

end Table

end TokenTariff
