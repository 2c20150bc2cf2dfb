import TokenTariff.Proofs.DoubleSigns
import TokenTariff.Proofs.Tariff.CacheWrites
import TokenTariff.Proofs.Tariff.LongContexts
import TokenTariff.Proofs.Tariff.OwnRates
import TokenTariff.Report.Answers
/-!
# Requests without a price

A request is without a price if the name of its model means none and its total is not above zero.
Unless it has a long context, which is paid at a tier whether or not the model is listed, all of its
items are then zero. With a long context they are zero too where neither input nor output costs less
than nothing, for the total is above zero as soon as one of several items is that are not negative.

* `Breakdown.IsFree`: all items of a request are zero;
* `Table.cost_without_price`: what a request without a price costs.
-/

namespace TokenTariff
set_option autoImplicit false

open Double

/-! ## Factors -/

namespace TokenCount

theorem natAbs_lt (a : TokenCount) : a.val.natAbs < 2 ^ 64 := by
  have least := a.least
  have greatest := a.greatest
  omega

theorem isFinite_toFloat (a : TokenCount) : a.toFloat.isFinite = true :=
  isFinite_ofInt a.natAbs_lt

theorem toFloat_nonneg {a : TokenCount} (h : 0 ≤ a.val) : 0 ≤ a.toFloat :=
  ofInt_nonneg h a.natAbs_lt

theorem mul_zero_eq_zero (a : TokenCount) : (a.toFloat * 0 == 0) = true :=
  mul_eq_zero a.isFinite_toFloat (by decide)

theorem mul_rate_nonneg {a : TokenCount} (h : 0 ≤ a.val) {rate : Float}
    (finite : rate.isFinite = true) (nonneg : 0 ≤ rate) : 0 ≤ a.toFloat * rate :=
  mul_nonneg a.isFinite_toFloat finite (toFloat_nonneg h) nonneg

end TokenCount

theorem Family.hourRate_finite_nonneg (family : Family) :
    family.hourRate.isFinite = true ∧ 0 ≤ family.hourRate := by
  cases family <;> decide

/-- Whether both rates of a tier are finite and not negative. -/
def Tier.IsNonnegative (tier : Tier) : Prop :=
  (tier.input.isFinite = true ∧ 0 ≤ tier.input) ∧ tier.output.isFinite = true ∧ 0 ≤ tier.output

instance (tier : Tier) : Decidable tier.IsNonnegative :=
  inferInstanceAs (Decidable ((_ ∧ _) ∧ _ ∧ _))

/-! ## Items -/

namespace Breakdown

/-- All items of a request, and their sum. -/
def items (b : Breakdown) : List Float :=
  [b.input, b.output, b.cacheWrite, b.cacheRead, b.fiveMinuteWrite, b.oneHourWrite, b.total]

/-- Whether a request costs nothing. -/
def IsFree (b : Breakdown) : Prop :=
  ∀ item ∈ b.items, (item == 0) = true

instance (b : Breakdown) : Decidable b.IsFree :=
  inferInstanceAs (Decidable (∀ item ∈ b.items, (item == 0) = true))

/-- Items of which none is negative are all zero if their sum is not above zero. -/
theorem isFree_of_parts {b : Breakdown}
    (write : b.cacheWrite = b.fiveMinuteWrite + b.oneHourWrite)
    (sum : b.total = b.input + b.output + b.cacheWrite + b.cacheRead)
    (input : 0 ≤ b.input) (output : 0 ≤ b.output) (five : 0 ≤ b.fiveMinuteWrite)
    (hour : 0 ≤ b.oneHourWrite) (read : 0 ≤ b.cacheRead) (total : ¬ 0 < b.total) : b.IsFree := by
  have both := add_nonneg input output
  have stored : 0 ≤ b.cacheWrite := write ▸ add_nonneg five hour
  have most := add_nonneg both stored
  have totalZero := eq_zero_of_nonneg_of_not_pos (sum ▸ add_nonneg most read) total
  obtain ⟨mostZero, readZero⟩ := parts_eq_zero most read (sum ▸ totalZero)
  obtain ⟨bothZero, storedZero⟩ := parts_eq_zero both stored mostZero
  obtain ⟨inputZero, outputZero⟩ := parts_eq_zero input output bothZero
  obtain ⟨fiveZero, hourZero⟩ := parts_eq_zero five hour (write ▸ storedZero)
  simp [IsFree, items, inputZero, outputZero, storedZero, readZero, fiveZero, hourZero, totalZero]

end Breakdown

namespace Table
open ModelName Text

variable {table : Table} {model : String} {usage : Usage}

/-! ## Rates of zero -/

theorem IsBuilt.hourRate_finite_nonneg (built : table.IsBuilt) (model : String) :
    (table.hourRate model).isFinite = true ∧ 0 ≤ table.hourRate model := by
  rw [built.hourRate_eq]
  cases Family.ofModel? model with
  | none => decide
  | some family => exact family.hourRate_finite_nonneg

theorem cost_of_asking (unlisted : table.resolve model = none)
    (asks : asksForLongContext model = true) (usage : Usage) :
    table.cost model usage =
      itemise {} (table.tierOf model usage) (table.hourRate model) false usage := by
  rw [cost, unlisted]
  simp only [asks, if_true]

/-- Without a price nothing is paid for the cache but what an hour costs. -/
theorem cache_cost_of_unlisted (unlisted : table.resolve model = none) (usage : Usage) :
    ((table.cost model usage).fiveMinuteWrite == 0) = true ∧
      ((table.cost model usage).cacheRead == 0) = true := by
  cases asks : asksForLongContext model with
  | true =>
    rw [cost_of_asking unlisted asks]
    exact ⟨TokenCount.mul_zero_eq_zero _, TokenCount.mul_zero_eq_zero _⟩
  | false =>
    rw [cost_of_unpriced unlisted asks]
    decide

theorem oneHour_cost_nonneg (built : table.IsBuilt) (model : String) (usage : Usage) :
    0 ≤ (table.cost model usage).oneHourWrite := by
  obtain ⟨finite, nonneg⟩ := built.hourRate_finite_nonneg model
  have paid := TokenCount.mul_rate_nonneg usage.cacheWrites_nonneg.2 finite nonneg
  rw [cost]
  split
  · exact paid
  · split
    · exact paid
    · decide

theorem cost_sums (table : Table) (model : String) (usage : Usage) :
    (table.cost model usage).cacheWrite =
        (table.cost model usage).fiveMinuteWrite + (table.cost model usage).oneHourWrite ∧
      (table.cost model usage).total =
        (table.cost model usage).input + (table.cost model usage).output +
          (table.cost model usage).cacheWrite + (table.cost model usage).cacheRead := by
  rw [cost]
  split
  · exact ⟨rfl, rfl⟩
  · split
    · exact ⟨rfl, rfl⟩
    · decide

/-! ## Requests without a price -/

theorem unlisted_of_unpriced (unpriced : (table.cost model usage).hasPricing = false) :
    table.resolve model = none := by
  cases resolved : table.resolve model with
  | none => rfl
  | some found =>
    rw [cost, resolved] at unpriced
    exact absurd unpriced (by simp [itemise])

theorem total_of_unpriced (unpriced : (table.cost model usage).hasPricing = false) :
    ¬ 0 < (table.cost model usage).total := by
  have unlisted := unlisted_of_unpriced unpriced
  cases asks : asksForLongContext model with
  | true =>
    rw [cost_of_asking unlisted asks] at unpriced ⊢
    exact of_decide_eq_false unpriced
  | false =>
    rw [cost_of_unpriced unlisted asks]
    decide

/-- If neither input nor output costs less than nothing, nothing at all is paid. -/
theorem isFree_of_unpriced (built : table.IsBuilt)
    (unpriced : (table.cost model usage).hasPricing = false)
    (input : 0 ≤ (table.cost model usage).input) (output : 0 ≤ (table.cost model usage).output) :
    (table.cost model usage).IsFree := by
  obtain ⟨write, sum⟩ := cost_sums table model usage
  obtain ⟨five, read⟩ := cache_cost_of_unlisted (unlisted_of_unpriced unpriced) usage
  exact Breakdown.isFree_of_parts write sum input output (nonneg_of_eq_zero five)
    (oneHour_cost_nonneg built model usage) (nonneg_of_eq_zero read) (total_of_unpriced unpriced)

theorem paid_zero_of_no_tier (unlisted : table.resolve model = none)
    (short : table.tierOf model usage = none) :
    ((table.cost model usage).input == 0) = true ∧
      ((table.cost model usage).output == 0) = true := by
  cases asks : asksForLongContext model with
  | true =>
    obtain ⟨input, output⟩ := cost_of_unlisted short unlisted asks
    rw [input, output]
    exact ⟨TokenCount.mul_zero_eq_zero _, TokenCount.mul_zero_eq_zero _⟩
  | false =>
    rw [cost_of_unpriced unlisted asks]
    decide

theorem paid_nonneg_of_tier {tier : Tier} (long : table.tierOf model usage = some tier)
    (nonneg : tier.IsNonnegative) (input : 0 ≤ usage.input.val) (output : 0 ≤ usage.output.val) :
    0 ≤ (table.cost model usage).input ∧ 0 ≤ (table.cost model usage).output := by
  obtain ⟨⟨finite, rate⟩, finite', rate'⟩ := nonneg
  obtain ⟨inputPaid, outputPaid⟩ := cost_of_tier long
  rw [inputPaid, outputPaid]
  exact ⟨TokenCount.mul_rate_nonneg input finite rate, TokenCount.mul_rate_nonneg output finite' rate'⟩

/-- The name of a model without a price means no model, and what is printed for people is only that
there is no price. Whether the request has a long context is decided as for any other. Without one
all of its items are zero. With one input and output are priced by the tier all the same; what is
paid for five minutes in the cache and for what comes out of it is zero, and all items are if
neither input nor output costs less than nothing, as for counts and tiers that are not negative. -/
theorem cost_without_price (built : table.IsBuilt)
    (unpriced : (table.cost model usage).hasPricing = false) :
    table.resolve model = none ∧
    Report.costTable model usage (table.cost model usage) = Report.noPriceText model ∧
    (∀ atEnd, (table.cost model usage).isLongContext = true ↔
      containsText (lowercaseInContext atEnd model) "[1m]" = true ∧
        200000 < usage.totalInput.val ∧ table.tiers.isEmpty = false) ∧
    ((table.cost model usage).isLongContext = false → (table.cost model usage).IsFree) ∧
    ((table.cost model usage).isLongContext = true → ∃ tier, table.IsTierOf model tier ∧
      (table.cost model usage).input = usage.input.toFloat * tier.input ∧
      (table.cost model usage).output = usage.output.toFloat * tier.output) ∧
    ((table.cost model usage).fiveMinuteWrite == 0) = true ∧
    ((table.cost model usage).cacheRead == 0) = true ∧
    (0 ≤ (table.cost model usage).input → 0 ≤ (table.cost model usage).output →
      (table.cost model usage).IsFree) ∧
    (0 ≤ usage.input.val → 0 ≤ usage.output.val →
      (∀ tier, table.tierOf model usage = some tier → tier.IsNonnegative) →
      (table.cost model usage).IsFree) := by
  have unlisted := unlisted_of_unpriced unpriced
  obtain ⟨five, read⟩ := cache_cost_of_unlisted unlisted usage
  have free := isFree_of_unpriced built unpriced
  have freeOfNoTier : table.tierOf model usage = none → (table.cost model usage).IsFree := by
    intro short
    obtain ⟨input, output⟩ := paid_zero_of_no_tier unlisted short
    exact free (nonneg_of_eq_zero input) (nonneg_of_eq_zero output)
  refine ⟨unlisted, if_neg (Bool.not_eq_true _ ▸ unpriced), fun atEnd => ?_, fun short => ?_,
    exists_tier_of_isLongContext, five, read, free, fun input output nonneg => ?_⟩
  · have asks : containsText (lowercaseInContext atEnd model) "[1m]" = asksForLongContext model :=
      containsText_word_inContext atEnd model longContextMark_mem_words
    rw [asks]
    exact isLongContext_cost_iff
  · rw [isLongContext_cost, Option.isSome_eq_false_iff, Option.isNone_iff_eq_none] at short
    exact freeOfNoTier short
  · cases tier : table.tierOf model usage with
    | none => exact freeOfNoTier tier
    | some tier' =>
      obtain ⟨paid, paid'⟩ := paid_nonneg_of_tier tier (nonneg _ tier) input output
      exact free paid paid'

/-- A name that means no model, but asks for a long context: tokens that only come out of the cache,
which cost nothing there. -/
theorem cost_without_price_from_cache :
    let table := empty.withTiers [("sonnet[1m]", ⟨0.000006, 0.0000225⟩)]
    let usage := { Usage.zero with cacheRead := .clamp 300000 }
    (table.cost "mystery[1m]" usage).isLongContext = true ∧
      (∃ tier, table.IsTierOf "mystery[1m]" tier ∧
        (table.cost "mystery[1m]" usage).input = usage.input.toFloat * tier.input) ∧
      (table.cost "mystery[1m]" usage).IsFree ∧ (table.cost "mystery" usage).IsFree := by
  intro table usage
  have built : table.IsBuilt := .withTiers _ .empty
  have unpriced : (table.cost "mystery[1m]" usage).hasPricing = false := by decide +kernel
  have plain : (table.cost "mystery" usage).hasPricing = false := by decide +kernel
  have nonneg : (table.tierOf "mystery[1m]" usage).all (decide ·.IsNonnegative) = true := by
    decide +kernel
  rw [Option.all_eq_true] at nonneg
  obtain ⟨-, -, long_iff, -, priced, -, -, -, free⟩ := cost_without_price built unpriced
  obtain ⟨-, -, -, short, -⟩ := cost_without_price built plain
  have long := (long_iff fun _ _ => false).2 (by decide +kernel)
  obtain ⟨tier, meant, input, -⟩ := priced long
  exact ⟨long, ⟨tier, meant, input⟩,
    free (by decide) (by decide) fun tier meant => of_decide_eq_true (nonneg tier meant),
    short (by decide +kernel)⟩

/-- A request without a price that has a long context, and that pays for input, since it has fewer
than no tokens of output; and one that has a long context and costs nothing. -/
theorem long_context_without_price :
    let fewer := { Usage.zero with input := .clamp 300000, output := .clamp (-200000) }
    let cached := { Usage.zero with cacheRead := .clamp 300000 }
    ∃ table, read (Bytes.ofText "{}") = .ok table ∧
      ((table.cost "mystery[1m]" fewer).hasPricing = false ∧
        (table.cost "mystery[1m]" fewer).isLongContext = true ∧
        0 < (table.cost "mystery[1m]" fewer).input ∧
        ¬ (table.cost "mystery[1m]" fewer).IsFree) ∧
      (table.cost "mystery[1m]" cached).hasPricing = false ∧
      (table.cost "mystery[1m]" cached).isLongContext = true := by
  intro fewer cached
  have unlisted : (ofFeed []).resolve "mystery[1m]" = none :=
    Option.isNone_iff_eq_none.1 (by decide +kernel)
  have asks : asksForLongContext "mystery[1m]" = true := by decide +kernel
  have hour : (ofFeed []).hourRate "mystery[1m]" = 0 := by
    rw [IsBuilt.hourRate_eq (.ofFeed [])]
    decide +kernel
  refine ⟨ofFeed [], by rfl, ?_⟩
  rw [cost_of_asking unlisted asks, cost_of_asking unlisted asks, hour]
  decide +kernel

end Table

end TokenTariff
