import TokenTariff.Proofs.Tariff.Feed
import TokenTariff.Proofs.Tariff.Meaning
import TokenTariff.Proofs.Tariff.SearchedWords
import TokenTariff.Tariff.Cost
/-!
# What a cost depends on

Of all rates in a table, the cost of a request reads four of the model that its name means: those
for input, for output, for tokens that go into the cache, and for tokens that come out of it. Which
model that is, the rates for a long context and those for an hour in the cache depend on no rate of
any model. So two tables with the same names and tiers ask the same for a request as soon as they
agree on these four rates (`Table.cost_reads_own_rates`).

* `Table.IsBuilt`: the tables that can be made;
* `Rates.paid`: the four rates of a model that are read.
-/

namespace TokenTariff
set_option autoImplicit false

/-- The rates for input, for output, and for both directions of the cache. -/
def Rates.paid (r : Rates) : List Float :=
  [r.input, r.output, r.cacheWrite, r.cacheRead]

namespace Table
open ModelName

/-! ## Tables that can be made -/

/-- The tables that can be made: the empty one, those of price lists, and those that get other
rates for long contexts. -/
inductive IsBuilt : Table → Prop
  | empty : IsBuilt .empty
  | ofFeed (members : List (String × Json.Value)) : IsBuilt (.ofFeed members)
  | withTiers {table : Table} (tiers : List (String × Tier)) :
    IsBuilt table → IsBuilt (table.withTiers tiers)

theorem isIndexed_empty : empty.IsIndexed := by
  intro form key
  have none : empty.withForm form = ∅ := rfl
  rw [none]
  simp [FirstOf, empty]

theorem IsBuilt.isIndexed {table : Table} (built : table.IsBuilt) : table.IsIndexed := by
  induction built with
  | empty => exact isIndexed_empty
  | ofFeed members => exact isIndexed_ofRates _
  | withTiers tiers _ ih => exact ih

theorem IsBuilt.of_read {document : Bytes} {table : Table} (accepted : read document = .ok table) :
    table.IsBuilt := by
  obtain ⟨members, -, rfl⟩ := map_eq_ok_iff.1 accepted
  exact .ofFeed members

/-- Whatever rates for an hour a table lists, they are those of the families. -/
theorem IsBuilt.hourRate_eq {table : Table} (built : table.IsBuilt) (model : String) :
    table.hourRate model = ((Family.ofModel? model).map Family.hourRate).getD 0 := by
  induction built with
  | empty => rw [hourRate, Table.empty, Dictionary.get?_empty, Option.getD_none]
  | ofFeed members => exact hourRate_ofRates _ model
  | withTiers tiers _ ih => exact ih

theorem tiers_ofFeed (members : List (String × Json.Value)) :
    (ofFeed members).tiers = builtInTiers := rfl

/-! ## What a cost reads -/

variable {table other : Table}

theorem itemise_congr {rates rates' : Rates} (same : rates.paid = rates'.paid) (tier : Option Tier)
    (hourRate : Float) (isListed : Bool) (usage : Usage) :
    itemise rates tier hourRate isListed usage = itemise rates' tier hourRate isListed usage := by
  simp only [Rates.paid, List.cons.injEq] at same
  obtain ⟨input, output, cacheWrite, cacheRead, -⟩ := same
  simp only [itemise, input, output, cacheWrite, cacheRead]

theorem tierOf_congr (tiers : other.tiers = table.tiers) (model : String) (usage : Usage) :
    other.tierOf model usage = table.tierOf model usage := by
  simp only [tierOf, tierFor, tiers]

theorem hourRate_congr (built : table.IsBuilt) (built' : other.IsBuilt) (model : String) :
    other.hourRate model = table.hourRate model := by
  rw [built.hourRate_eq, built'.hourRate_eq]

theorem map_key_resolve_congr (indexed : table.IsIndexed) (indexed' : other.IsIndexed)
    (names : other.listed = table.listed) (model : String) :
    (other.resolve model).map Resolved.key = (table.resolve model).map Resolved.key := by
  rw [indexed.map_key_resolve, indexed'.map_key_resolve, names]

theorem cost_congr_of_unlisted (tiers : other.tiers = table.tiers) {model : String}
    (hour : other.hourRate model = table.hourRate model) (unlisted : table.resolve model = none)
    (unlisted' : other.resolve model = none) (usage : Usage) :
    other.cost model usage = table.cost model usage := by
  simp only [cost, unlisted, unlisted', tierOf_congr tiers, hour]

theorem cost_congr_of_found (tiers : other.tiers = table.tiers) {model : String}
    (hour : other.hourRate model = table.hourRate model) {found found' : Resolved}
    (resolved : table.resolve model = some found) (resolved' : other.resolve model = some found')
    (same : found'.rates.paid = found.rates.paid) (usage : Usage) :
    other.cost model usage = table.cost model usage := by
  simp only [cost, resolved, resolved', tierOf_congr tiers, hour]
  exact itemise_congr same ..

/-- In two tables with the same names and tiers every name means the same model. A request for a
name that means none costs the same; and so does a request for a name whose model has the same rates
for input, output, and both directions of the cache in both tables, whatever its other rates and the
rates of all other models are. -/
theorem cost_reads_own_rates (built : table.IsBuilt) (built' : other.IsBuilt)
    (names : other.listed = table.listed) (tiers : other.tiers = table.tiers) (model : String) :
    (other.resolve model).map Resolved.key = (table.resolve model).map Resolved.key ∧
    (table.resolve model = none →
      ∀ usage, other.cost model usage = table.cost model usage) ∧
    ∀ key, (table.resolve model).map Resolved.key = some key →
      ∃ rates rates', table.get? key = some rates ∧ other.get? key = some rates' ∧
        (rates'.paid = rates.paid → ∀ usage, other.cost model usage = table.cost model usage) := by
  have keys := map_key_resolve_congr built.isIndexed built'.isIndexed names model
  have hour := hourRate_congr built built' model
  refine ⟨keys, fun unlisted usage => ?_, fun key meant => ?_⟩
  · rw [unlisted, Option.map_none, Option.map_eq_none_iff] at keys
    exact cost_congr_of_unlisted tiers hour unlisted keys usage
  · obtain ⟨found, resolved, rfl⟩ := Option.map_eq_some_iff.1 meant
    obtain ⟨found', resolved', same⟩ := Option.map_eq_some_iff.1 (keys.trans meant)
    have has := built.isIndexed.get?_of_resolve resolved
    have has' := built'.isIndexed.get?_of_resolve resolved'
    rw [same] at has'
    exact ⟨_, _, has, has', fun paid => cost_congr_of_found tiers hour resolved resolved' paid⟩

/-- Two price lists with the same names that agree on the paid rates of one model only. -/
theorem cost_reads_own_rates_two_lists : ∃ table other,
    read (Bytes.ofText "\x7b\"a\":\x7b\"input_cost_per_token\":1\x7d,\"b\":\x7b\x7d\x7d") =
      .ok table ∧
    read (Bytes.ofText ("\x7b\"b\":\x7b\"input_cost_per_token\":2\x7d," ++
      "\"a\":\x7b\"input_cost_per_token\":1,\"input_cost_per_token_above_200k_tokens\":3\x7d\x7d")) =
        .ok other ∧
    ∀ usage, other.cost "A" usage = table.cost "A" usage := by
  generalize first_eq :
    Bytes.ofText "\x7b\"a\":\x7b\"input_cost_per_token\":1\x7d,\"b\":\x7b\x7d\x7d" = first
  generalize second_eq : Bytes.ofText ("\x7b\"b\":\x7b\"input_cost_per_token\":2\x7d," ++
    "\"a\":\x7b\"input_cost_per_token\":1,\"input_cost_per_token_above_200k_tokens\":3\x7d\x7d") =
      second
  have facts : (read first).toOption.map (fun table => (table.entries.names,
      (table.resolve "A").map Resolved.key, (table.get? "a").map Rates.paid)) =
        some (["a", "b"], some "a", some [1, 0, 1.25, 0.1]) := by
    rw [← first_eq]
    decide +kernel
  have facts' : (read second).toOption.map (fun other => (other.entries.names,
      (other.get? "a").map Rates.paid)) = some (["a", "b"], some [1, 0, 1.25, 0.1]) := by
    rw [← second_eq]
    decide +kernel
  obtain ⟨table, accepted, facts⟩ := Option.map_eq_some_iff.1 facts
  obtain ⟨other, accepted', facts'⟩ := Option.map_eq_some_iff.1 facts'
  have accepted := toOption_eq_some_iff.1 accepted
  have accepted' := toOption_eq_some_iff.1 accepted'
  simp only [Prod.mk.injEq] at facts facts'
  obtain ⟨names, meant, paid⟩ := facts
  obtain ⟨names', paid'⟩ := facts'
  have listed : other.listed = table.listed := by rw [listed, listed, names, names']
  have tiers : other.tiers = table.tiers := by
    obtain ⟨members, -, rfl⟩ := read_eq_ok_iff.1 accepted
    obtain ⟨members', -, rfl⟩ := read_eq_ok_iff.1 accepted'
    rw [tiers_ofFeed, tiers_ofFeed]
  obtain ⟨-, -, own⟩ :=
    cost_reads_own_rates (.of_read accepted) (.of_read accepted') listed tiers "A"
  obtain ⟨rates, rates', has, has', same⟩ := own "a" meant
  rw [has, Option.map_some, Option.some_inj] at paid
  rw [has', Option.map_some, Option.some_inj] at paid'
  exact ⟨table, other, accepted, accepted', same (paid'.trans paid.symm)⟩

end Table

end TokenTariff
