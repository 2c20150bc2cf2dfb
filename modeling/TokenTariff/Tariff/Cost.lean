import TokenTariff.Tariff.Resolution
import TokenTariff.Tariff.Usage
/-!
# Cost of a request

What a request costs, item by item. A model that asks for a long context pays the rates of its tier
for input and output as soon as the context is larger than the threshold; its cache is paid at the
rates of the model. A request whose model is not in the table costs nothing, unless it asks for a
long context.
-/

namespace TokenTariff
set_option autoImplicit false

/-- Dollars for the items of a request. -/
structure Breakdown where
  input : Float := 0
  output : Float := 0
  /-- The sum of the two items for tokens that go into the cache. -/
  cacheWrite : Float := 0
  cacheRead : Float := 0
  fiveMinuteWrite : Float := 0
  oneHourWrite : Float := 0
  total : Float := 0
  /-- Whether the model has a price or the request costs something. -/
  hasPricing : Bool := false
  isLongContext : Bool := false

/-- The size of the context above which the rates for long contexts apply. -/
def longContextThreshold : Int := 200000

namespace Table

/-- The rates for a long context, if the request has one. -/
def tierOf (table : Table) (model : String) (usage : Usage) : Option Tier :=
  if ModelName.asksForLongContext model && longContextThreshold < usage.totalInput.val then
    table.tierFor model
  else none

/-- The items of a request at given rates for the model, for a long context, and for an hour in the
cache; `isListed` tells whether the model has a price. -/
def itemise (rates : Rates) (tier : Option Tier) (hourRate : Float) (isListed : Bool)
    (usage : Usage) : Breakdown :=
  let writes := usage.cacheWrites
  let input := usage.input.toFloat * (tier.elim rates.input Tier.input)
  let output := usage.output.toFloat * (tier.elim rates.output Tier.output)
  let fiveMinuteWrite := writes.fiveMinutes.toFloat * rates.cacheWrite
  let oneHourWrite := writes.oneHour.toFloat * hourRate
  let cacheWrite := fiveMinuteWrite + oneHourWrite
  let cacheRead := usage.cacheRead.toFloat * rates.cacheRead
  let total := input + output + cacheWrite + cacheRead
  { input, output, cacheWrite, cacheRead, fiveMinuteWrite, oneHourWrite, total
    hasPricing := isListed || total > 0
    isLongContext := tier.isSome }

def cost (table : Table) (model : String) (usage : Usage) : Breakdown :=
  match table.resolve model with
  | some found =>
    itemise found.rates (table.tierOf model usage) (table.hourRate model) true usage
  | none =>
    if ModelName.asksForLongContext model then
      itemise {} (table.tierOf model usage) (table.hourRate model) false usage
    else {}

end Table

end TokenTariff
