import TokenTariff.Report.Amount
import TokenTariff.Report.Grid
import TokenTariff.Tariff.BreakdownJson
import TokenTariff.Tariff.UsageJson
/-!
# Answers

What the program prints: the cost of a request, the model that a name means, or the number of
models after a refresh, each for people or as JSON.
-/

namespace TokenTariff.Report
set_option autoImplicit false

/-! ## As JSON -/

/-- The cost of a request as JSON. -/
def costJson (model : String) (usage : Usage) (cost : Breakdown) : String :=
  Json.pretty 0 (Json.MemberOrder.byName.object
    [("model", .string model), ("usage", usage.toJson .byName), ("cost", cost.toJson .byName)])

/-- The model that a name means as JSON. -/
def resolutionJson (model : String) (found : Option Resolved) : String :=
  Json.pretty 0 (Json.MemberOrder.byName.object
    ([("model", .string model), ("found", .boolean found.isSome)] ++
      match found with
      | some hit => [("key", .string hit.key), ("pricing", hit.rates.toJson)]
      | none => []))

def refreshJson (models : Nat) : String :=
  Json.compact (.object [("models", .number (.integer models))])

/-! ## For people -/

/-- The line for a model that has no price. -/
def noPriceText (model : String) : String :=
  "No pricing found for " ++ model ++ "\n"

/-- A grid under a title. -/
def titled (title : String) (grid : Grid) : String :=
  "\n  " ++ title ++ "\n\n" ++ grid.text ++ "\n"

/-- The items of a cost with their tokens. -/
def costGrid (usage : Usage) (cost : Breakdown) : Grid :=
  let writes := usage.cacheWrites
  let item (label : String) (tokens : TokenCount) (amount : Float) : Row :=
    [⟨label, false⟩, ⟨toString tokens.val, true⟩, ⟨costText amount, true⟩]
  { header := [⟨"Item", false⟩, ⟨"Tokens", false⟩, ⟨"Cost (USD)", false⟩]
    rows :=
      [item (if cost.isLongContext then "Input (1M context)" else "Input") usage.input cost.input,
        item "Output" usage.output cost.output,
        item "Cache write 5m" writes.fiveMinutes cost.fiveMinuteWrite,
        item "Cache write 1h" writes.oneHour cost.oneHourWrite,
        item "Cache read" usage.cacheRead cost.cacheRead,
        [⟨"Total", false⟩, ⟨"", true⟩, ⟨costText cost.total, true⟩]] }

def costTable (model : String) (usage : Usage) (cost : Breakdown) : String :=
  if cost.hasPricing then titled model (costGrid usage cost) else noPriceText model

def ratesGrid (rates : Rates) : Grid :=
  let item (label : String) (rate : Float) : Row := [⟨label, false⟩, ⟨rateText rate, true⟩]
  { header := [⟨"Rate", false⟩, ⟨"USD", false⟩]
    rows :=
      [item "Input" rates.input, item "Output" rates.output, item "Cache write" rates.cacheWrite,
        item "Cache write >1h" rates.cacheWriteAbove1Hour, item "Cache read" rates.cacheRead,
        item "Input >200k" rates.inputAbove200k, item "Output >200k" rates.outputAbove200k] }

/-- The model that a name means. -/
def resolutionText (model : String) (found : Option Resolved) : String :=
  match found with
  | some hit => titled (model ++ " -> " ++ hit.key) (ratesGrid hit.rates)
  | none => noPriceText model

def refreshText (models : Nat) : String :=
  "Fetched pricing for " ++ toString models ++ " models\n"

end TokenTariff.Report
