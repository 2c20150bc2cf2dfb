import TokenTariff.Proofs.Tariff.Index
import TokenTariff.Proofs.Tariff.SearchedWords
import TokenTariff.Tariff.Cost
/-!
# Requests with a long context

A request has a long context if its model asks for one, its context is larger than the threshold, and
there is any tier at all; whether the model is listed does not matter (`isLongContext_cost`). The
tier is the one under the name of the model, or else the first one (`tierFor_eq_some_iff`). Sums of
counts that leave the 64-bit range stay on the same side of the threshold, and a larger count never
makes a context smaller (`threshold_lt_totalInput_iff`, `totalInput_mono`).

* `Table.IsTierOf`: the tier that is meant by a name;
* `Table.long_context_decision`: all of it for the cost of a request.
-/

namespace TokenTariff
set_option autoImplicit false

/-! ## Sums of counts -/

namespace TokenCount

theorem clamp_mono {m n : Int} (h : m ≤ n) : (clamp m).val ≤ (clamp n).val := by
  simp only [clamp]
  omega

theorem add_mono {a b c d : TokenCount} (h : a.val ≤ c.val) (h' : b.val ≤ d.val) :
    (a + b).val ≤ (c + d).val := by
  rw [val_add, val_add]
  exact clamp_mono (by omega)

/-- A sum that leaves the range stays on the same side of what lies within it. -/
theorem lt_clamp_iff {bound n : Int} (low : -0x8000000000000000 ≤ bound)
    (high : bound < 0x7FFFFFFFFFFFFFFF) : bound < (clamp n).val ↔ bound < n := by
  simp only [clamp]
  omega

end TokenCount

namespace Usage
open TokenCount

theorem totalInput_mono {usage larger : Usage} (input : usage.input.val ≤ larger.input.val)
    (write : usage.cacheWrite.val ≤ larger.cacheWrite.val)
    (read : usage.cacheRead.val ≤ larger.cacheRead.val) :
    usage.totalInput.val ≤ larger.totalInput.val :=
  add_mono (add_mono input write) read

theorem threshold_lt_totalInput_iff {usage : Usage} (input : 0 ≤ usage.input.val)
    (write : 0 ≤ usage.cacheWrite.val) (read : 0 ≤ usage.cacheRead.val) :
    200000 < usage.totalInput.val ↔
      200000 < usage.input.val + usage.cacheWrite.val + usage.cacheRead.val := by
  have outer : 200000 < usage.totalInput.val ↔
      200000 < (usage.input + usage.cacheWrite).val + usage.cacheRead.val :=
    lt_clamp_iff (by omega) (by omega)
  rw [outer, val_add]
  simp only [clamp]
  omega

end Usage

/-! ## Tiers -/

namespace Dictionary

variable {α : Type} {d : Dictionary α} {name : String} {value : α}

theorem firstOf_of_first? (h : d.first? = some (name, value)) :
    FirstOf {name | name ∈ d.names} name ∧ d.get? name = some value := by
  obtain ⟨rest, split⟩ := List.head?_eq_some_iff.1 h
  have names : d.names = name :: rest.map (·.1) := by rw [Dictionary.names, split, List.map_cons]
  have ascending := d.names_ascending
  rw [names, List.pairwise_cons] at ascending
  have mem : (name, value) ∈ d.entries := split ▸ List.mem_cons_self
  have own : name ∈ d.names := names ▸ List.mem_cons_self
  refine ⟨firstOf_iff.2 ⟨own, fun other listed => ?_⟩, mem_entries_iff.1 mem⟩
  change other ∈ d.names at listed
  rw [names] at listed
  rcases List.mem_cons.1 listed with rfl | listed
  · exact le_refl _
  · exact (ascending.1 other listed).le

theorem first?_eq_some_iff :
    d.first? = some (name, value) ↔
      FirstOf {name | name ∈ d.names} name ∧ d.get? name = some value := by
  refine ⟨firstOf_of_first?, fun h => ?_⟩
  obtain ⟨least, found⟩ := h
  have nonempty : d.entries ≠ [] := List.ne_nil_of_mem (mem_entries_iff.2 found)
  obtain ⟨⟨other, held⟩, head⟩ := Option.isSome_iff_exists.1 (List.isSome_head?.2 nonempty)
  obtain ⟨least', found'⟩ := firstOf_of_first? head
  have same := least.unique least'
  rw [← same, found] at found'
  rw [same, Option.some.inj found']
  exact head

end Dictionary

namespace Table
open ModelName Text

variable {table : Table} {model : String} {usage : Usage}

/-- A tier is that of a model if it stands under the name of the model, or, where none does, under
the first of all names. -/
def IsTierOf (table : Table) (model : String) (tier : Tier) : Prop :=
  table.tiers.get? model = some tier ∨
    table.tiers.get? model = none ∧ ∃ name,
      FirstOf {name | name ∈ table.tiers.names} name ∧ table.tiers.get? name = some tier

theorem tierFor_eq_some_iff {tier : Tier} :
    table.tierFor model = some tier ↔ table.IsTierOf model tier := by
  rw [tierFor, IsTierOf, Option.or_eq_some_iff, Option.map_eq_some_iff]
  simp only [Prod.exists, Dictionary.first?_eq_some_iff]
  refine or_congr_right (and_congr_right fun _ => ⟨?_, ?_⟩)
  · rintro ⟨name, _, found, rfl⟩
    exact ⟨name, found⟩
  · rintro ⟨name, found⟩
    exact ⟨name, tier, found, rfl⟩

theorem isSome_tierFor_iff : (table.tierFor model).isSome ↔ table.tiers.isEmpty = false := by
  rw [tierFor, Option.isSome_or, Option.isSome_map, Dictionary.first?, Dictionary.isEmpty,
    Dictionary.get?]
  cases table.tiers.entries <;> simp

theorem tierOf_eq_some_iff {tier : Tier} :
    table.tierOf model usage = some tier ↔
      asksForLongContext model = true ∧ 200000 < usage.totalInput.val ∧
        table.IsTierOf model tier := by
  rw [tierOf, Option.ite_none_right_eq_some, Bool.and_eq_true, decide_eq_true_eq, and_assoc,
    tierFor_eq_some_iff]
  rfl

/-! ## Costs -/

theorem isLongContext_itemise (rates : Rates) (tier : Option Tier) (hourRate : Float)
    (isListed : Bool) (usage : Usage) :
    (itemise rates tier hourRate isListed usage).isLongContext = tier.isSome := rfl

theorem isLongContext_cost (table : Table) (model : String) (usage : Usage) :
    (table.cost model usage).isLongContext = (table.tierOf model usage).isSome := by
  rw [cost]
  split
  · exact isLongContext_itemise ..
  · split
    · exact isLongContext_itemise ..
    · next plain => simp [tierOf, plain]

theorem isLongContext_cost_iff :
    (table.cost model usage).isLongContext = true ↔
      asksForLongContext model = true ∧ 200000 < usage.totalInput.val ∧
        table.tiers.isEmpty = false := by
  have tiers : table.tiers.isEmpty = false ↔ ∃ tier, table.IsTierOf model tier := by
    rw [← isSome_tierFor_iff, Option.isSome_iff_exists]
    exact exists_congr fun tier => tierFor_eq_some_iff
  rw [isLongContext_cost, Option.isSome_iff_exists, tiers]
  simp only [tierOf_eq_some_iff, exists_and_left]

theorem cost_of_tier {tier : Tier} (h : table.tierOf model usage = some tier) :
    (table.cost model usage).input = usage.input.toFloat * tier.input ∧
      (table.cost model usage).output = usage.output.toFloat * tier.output := by
  rw [cost, h]
  split
  · exact ⟨rfl, rfl⟩
  · rw [if_pos (tierOf_eq_some_iff.1 h).1]
    exact ⟨rfl, rfl⟩

/-- With a long context input and output are priced by the tier that is meant. -/
theorem exists_tier_of_isLongContext (long : (table.cost model usage).isLongContext = true) :
    ∃ tier, table.IsTierOf model tier ∧
      (table.cost model usage).input = usage.input.toFloat * tier.input ∧
      (table.cost model usage).output = usage.output.toFloat * tier.output := by
  rw [isLongContext_cost] at long
  obtain ⟨tier, h⟩ := Option.isSome_iff_exists.1 long
  exact ⟨tier, (tierOf_eq_some_iff.1 h).2.2, cost_of_tier h⟩

theorem cost_of_listed (h : table.tierOf model usage = none) {found : Resolved}
    (resolved : table.resolve model = some found) :
    (table.cost model usage).input = usage.input.toFloat * found.rates.input ∧
      (table.cost model usage).output = usage.output.toFloat * found.rates.output := by
  rw [cost, h, resolved]
  exact ⟨rfl, rfl⟩

theorem cost_of_unlisted (h : table.tierOf model usage = none)
    (unlisted : table.resolve model = none) (asks : asksForLongContext model = true) :
    (table.cost model usage).input = usage.input.toFloat * 0 ∧
      (table.cost model usage).output = usage.output.toFloat * 0 := by
  rw [cost, h, unlisted]
  simp only [asks, if_true]
  exact ⟨rfl, rfl⟩

theorem cost_of_unpriced (unlisted : table.resolve model = none)
    (plain : asksForLongContext model = false) : table.cost model usage = {} := by
  rw [cost, unlisted]
  simp only [plain, Bool.false_eq_true, if_false]

/-- A request has a long context exactly if the name of its model in lower case contains the mark,
the context is larger than the threshold, and there is a tier, whether or not the model is listed.
Then input and output are priced by the tier under the name of the model, or else by that under the
first name; otherwise by the rates of the model, which are zero where there is none. For counts that
are not negative the size of the context is the whole sum, even beyond the 64-bit range; and for any
counts a larger one never ends a long context. -/
theorem long_context_decision (table : Table) (model : String) (usage : Usage) :
    (∀ atEnd, (table.cost model usage).isLongContext = true ↔
      containsText (lowercaseInContext atEnd model) "[1m]" = true ∧
        200000 < usage.totalInput.val ∧ table.tiers.isEmpty = false) ∧
    ((table.cost model usage).isLongContext = true → ∃ tier, table.IsTierOf model tier ∧
      (table.cost model usage).input = usage.input.toFloat * tier.input ∧
      (table.cost model usage).output = usage.output.toFloat * tier.output) ∧
    ((table.cost model usage).isLongContext = false →
      (∀ found, table.resolve model = some found →
        (table.cost model usage).input = usage.input.toFloat * found.rates.input ∧
        (table.cost model usage).output = usage.output.toFloat * found.rates.output) ∧
      (table.resolve model = none → asksForLongContext model = true →
        (table.cost model usage).input = usage.input.toFloat * 0 ∧
        (table.cost model usage).output = usage.output.toFloat * 0) ∧
      (table.resolve model = none → asksForLongContext model = false →
        (table.cost model usage).input = 0 ∧ (table.cost model usage).output = 0)) ∧
    (0 ≤ usage.input.val → 0 ≤ usage.cacheWrite.val → 0 ≤ usage.cacheRead.val →
      (200000 < usage.totalInput.val ↔
        200000 < usage.input.val + usage.cacheWrite.val + usage.cacheRead.val)) ∧
    ∀ larger : Usage, usage.input.val ≤ larger.input.val →
      usage.cacheWrite.val ≤ larger.cacheWrite.val → usage.cacheRead.val ≤ larger.cacheRead.val →
      (table.cost model usage).isLongContext = true →
      (table.cost model larger).isLongContext = true := by
  refine ⟨fun atEnd => ?_, exists_tier_of_isLongContext, fun short => ?_,
    fun input write read => ?_, ?_⟩
  · have asks : containsText (lowercaseInContext atEnd model) "[1m]" = asksForLongContext model :=
      containsText_word_inContext atEnd model longContextMark_mem_words
    rw [asks]
    exact isLongContext_cost_iff
  · rw [isLongContext_cost, Option.isSome_eq_false_iff, Option.isNone_iff_eq_none] at short
    refine ⟨fun found => cost_of_listed short, cost_of_unlisted short, fun unlisted plain => ?_⟩
    rw [cost_of_unpriced unlisted plain]
    exact ⟨rfl, rfl⟩
  · exact Usage.threshold_lt_totalInput_iff input write read
  · intro larger input write read long
    obtain ⟨asks, large, tiers⟩ := isLongContext_cost_iff.1 long
    have grown := Usage.totalInput_mono input write read
    exact isLongContext_cost_iff.2 ⟨asks, large.trans_le grown, tiers⟩

/-- Two tiers, a model with a tier of its own, and counts whose sum is beyond the 64-bit range. -/
theorem long_context_decision_two_tiers :
    let table := empty.withTiers [("b[1m]", ⟨3, 4⟩), ("a[1m]", ⟨1, 2⟩)]
    let usage := { Usage.zero with
      input := .clamp 0x7FFFFFFFFFFFFFFF, cacheRead := .clamp 0x7FFFFFFFFFFFFFFF }
    (table.cost "b[1m]" usage).isLongContext = true ∧
      (table.cost "b[1m]" usage).input = usage.input.toFloat * 3 ∧
      (table.cost "b[1m]" { usage with cacheWrite := .clamp 1 }).isLongContext = true ∧
      200000 < usage.totalInput.val := by
  intro table usage
  obtain ⟨iff_words, priced, -, sum, grows⟩ := long_context_decision table "b[1m]" usage
  have large : 200000 < usage.totalInput.val :=
    (sum (by decide) (by decide) (by decide)).2 (by decide)
  have long : (table.cost "b[1m]" usage).isLongContext = true :=
    (iff_words fun _ _ => false).2 ⟨by decide +kernel, large, rfl⟩
  have own : table.tiers.get? "b[1m]" = some ⟨3, 4⟩ := rfl
  obtain ⟨tier, meant, input, -⟩ := priced long
  have only : tier = ⟨3, 4⟩ := by
    rcases meant with found | ⟨none, -⟩
    · exact Option.some.inj (found.symm.trans own)
    · rw [own] at none
      cases none
  rw [only] at input
  have more := grows { usage with cacheWrite := .clamp 1 } (by decide) (by decide) (by decide) long
  exact ⟨long, input, more, large⟩

end Table

end TokenTariff
