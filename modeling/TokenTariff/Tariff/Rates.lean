import TokenTariff.Json.Value
/-!
# Rates of a model

What a model costs, in dollars for each token. A price list names nine rates for a model; a rate
that it leaves out is zero. Where it gives a price for input but none for the cache, the cache
rates are fractions of the input rate.

* `Rates.members` pairs each rate with the name that it has in price lists;
* `Rates.ofMember` reads the rates of a model from a price list;
* `Rates.withCacheRates` fills in the cache rates.
-/

namespace TokenTariff
set_option autoImplicit false

/-- Dollars per token. -/
structure Rates where
  input : Float := 0
  output : Float := 0
  cacheWrite : Float := 0
  cacheWriteAbove1Hour : Float := 0
  cacheWriteAbove200k : Float := 0
  cacheRead : Float := 0
  inputAbove128k : Float := 0
  inputAbove200k : Float := 0
  outputAbove200k : Float := 0

namespace Rates

/-- The rates that `rate` gives for the names that they have in price lists. -/
def ofNames (rate : String → Float) : Rates where
  input := rate "input_cost_per_token"
  output := rate "output_cost_per_token"
  cacheWrite := rate "cache_creation_input_token_cost"
  cacheWriteAbove1Hour := rate "cache_creation_input_token_cost_above_1hr"
  cacheWriteAbove200k := rate "cache_creation_input_token_cost_above_200k_tokens"
  cacheRead := rate "cache_read_input_token_cost"
  inputAbove128k := rate "input_cost_per_token_above_128k_tokens"
  inputAbove200k := rate "input_cost_per_token_above_200k_tokens"
  outputAbove200k := rate "output_cost_per_token_above_200k_tokens"

/-- The rates with the names that they have in price lists. -/
def members (r : Rates) : List (String × Float) :=
  [("input_cost_per_token", r.input),
    ("output_cost_per_token", r.output),
    ("cache_creation_input_token_cost", r.cacheWrite),
    ("cache_creation_input_token_cost_above_1hr", r.cacheWriteAbove1Hour),
    ("cache_creation_input_token_cost_above_200k_tokens", r.cacheWriteAbove200k),
    ("cache_read_input_token_cost", r.cacheRead),
    ("input_cost_per_token_above_128k_tokens", r.inputAbove128k),
    ("input_cost_per_token_above_200k_tokens", r.inputAbove200k),
    ("output_cost_per_token_above_200k_tokens", r.outputAbove200k)]

/-- The rates of a model in a price list; what is not there or not a number is zero. -/
def ofMember (model : Json.Value) : Rates :=
  ofNames fun name => ((model.member? name).bind Json.Value.float?).getD 0

/-- What the cache costs where the price list has only an input rate. -/
def withCacheRates (r : Rates) : Rates :=
  if r.input <= 0 then r
  else
    { r with
      cacheWrite := if r.cacheWrite == 0 then r.input * 1.25 else r.cacheWrite
      cacheRead := if r.cacheRead == 0 then r.input * 0.1 else r.cacheRead }

end Rates

end TokenTariff
