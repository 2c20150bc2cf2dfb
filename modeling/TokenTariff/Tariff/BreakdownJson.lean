import TokenTariff.Json.Record
import TokenTariff.Json.Writer
import TokenTariff.Tariff.Cost
/-!
# Costs as JSON

The JSON form of the breakdown of a cost, whose fields are all required in reading, and that of the
rates of a model. An amount that is not finite has no JSON form and is written as `null`.
-/

namespace TokenTariff
set_option autoImplicit false

/-- An amount in JSON. -/
def amountJson (x : Float) : Json.Value :=
  .number (.double x)

namespace Breakdown

/-- The fields as far as they have been read. -/
structure Fields where
  input : Option Float := none
  output : Option Float := none
  cacheWrite : Option Float := none
  cacheRead : Option Float := none
  fiveMinuteWrite : Option Float := none
  oneHourWrite : Option Float := none
  total : Option Float := none
  hasPricing : Option Bool := none
  isLongContext : Option Bool := none

def layout : Json.Layout Fields where
  name := "CostBreakdown"
  fields :=
    [.of "input_cost" Fields.input (fun f x => { f with input := some x }) Json.double,
      .of "output_cost" Fields.output (fun f x => { f with output := some x }) Json.double,
      .of "cache_create_cost" Fields.cacheWrite (fun f x => { f with cacheWrite := some x })
        Json.double,
      .of "cache_read_cost" Fields.cacheRead (fun f x => { f with cacheRead := some x }) Json.double,
      .of "ephemeral_5m_cost" Fields.fiveMinuteWrite
        (fun f x => { f with fiveMinuteWrite := some x }) Json.double,
      .of "ephemeral_1h_cost" Fields.oneHourWrite (fun f x => { f with oneHourWrite := some x })
        Json.double,
      .of "total_cost" Fields.total (fun f x => { f with total := some x }) Json.double,
      .of "has_pricing" Fields.hasPricing (fun f b => { f with hasPricing := some b }) Json.boolean,
      .of "is_long_context" Fields.isLongContext (fun f b => { f with isLongContext := some b })
        Json.boolean]
  allRequired := true

def ofFields (f : Fields) : Breakdown where
  input := f.input.getD 0
  output := f.output.getD 0
  cacheWrite := f.cacheWrite.getD 0
  cacheRead := f.cacheRead.getD 0
  fiveMinuteWrite := f.fiveMinuteWrite.getD 0
  oneHourWrite := f.oneHourWrite.getD 0
  total := f.total.getD 0
  hasPricing := f.hasPricing.getD false
  isLongContext := f.isLongContext.getD false

/-- Reads a text that holds nothing but the JSON form. -/
def read (bytes : Bytes) : Except Json.Error Breakdown :=
  (Json.whole (layout.read {}) bytes).map ofFields

def toJson (order : Json.MemberOrder) (b : Breakdown) : Json.Value :=
  order.object
    [("input_cost", amountJson b.input), ("output_cost", amountJson b.output),
      ("cache_create_cost", amountJson b.cacheWrite), ("cache_read_cost", amountJson b.cacheRead),
      ("ephemeral_5m_cost", amountJson b.fiveMinuteWrite),
      ("ephemeral_1h_cost", amountJson b.oneHourWrite), ("total_cost", amountJson b.total),
      ("has_pricing", .boolean b.hasPricing), ("is_long_context", .boolean b.isLongContext)]

end Breakdown

/-- The JSON form of the rates of a model, whose fields come in the order of their names. -/
def Rates.toJson (r : Rates) : Json.Value :=
  Json.MemberOrder.byName.object (r.members.map fun (name, rate) => (name, amountJson rate))

end TokenTariff
