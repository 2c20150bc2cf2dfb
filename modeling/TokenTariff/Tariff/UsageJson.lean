import TokenTariff.Json.Record
import TokenTariff.Json.Writer
import TokenTariff.Tariff.Usage
/-!
# Usage as JSON

The JSON form of the usage of a request. In writing, the fields come in a fixed order, and the
known cache writes only if there are any. In reading, every field may be missing: a count is then
zero, and nothing is known about the cache writes.
-/

namespace TokenTariff
set_option autoImplicit false

def TokenCount.take : Json.Reader TokenCount := fun bytes =>
  (Json.integer bytes).map fun (n, rest) => (.clamp n, rest)

def TokenCount.toJson (n : TokenCount) : Json.Value :=
  .number (.integer n.val)

namespace CacheWrites

/-- The fields as far as they have been read. -/
structure Fields where
  fiveMinutes : Option TokenCount := none
  oneHour : Option TokenCount := none

def layout : Json.Layout Fields where
  name := "CacheCreationDetail"
  fields :=
    [.of "ephemeral_5m_tokens" Fields.fiveMinutes (fun f n => { f with fiveMinutes := some n })
        TokenCount.take,
      .of "ephemeral_1h_tokens" Fields.oneHour (fun f n => { f with oneHour := some n })
        TokenCount.take]
  allRequired := false

def ofFields (f : Fields) : CacheWrites :=
  ⟨f.fiveMinutes.getD .zero, f.oneHour.getD .zero⟩

def take : Json.Reader CacheWrites := fun bytes =>
  (layout.read {} bytes).map fun (fields, rest) => (ofFields fields, rest)

/-- Reads a text that holds nothing but the JSON form. -/
def read (bytes : Bytes) : Except Json.Error CacheWrites :=
  Json.whole take bytes

def toJson (order : Json.MemberOrder) (w : CacheWrites) : Json.Value :=
  order.object
    [("ephemeral_5m_tokens", w.fiveMinutes.toJson), ("ephemeral_1h_tokens", w.oneHour.toJson)]

end CacheWrites

namespace Usage

/-- The fields as far as they have been read. -/
structure Fields where
  input : Option TokenCount := none
  output : Option TokenCount := none
  cacheWrite : Option TokenCount := none
  cacheRead : Option TokenCount := none
  known : Option (Option CacheWrites) := none

def layout : Json.Layout Fields where
  name := "UsageSnapshot"
  fields :=
    [.of "input_tokens" Fields.input (fun f n => { f with input := some n }) TokenCount.take,
      .of "output_tokens" Fields.output (fun f n => { f with output := some n }) TokenCount.take,
      .of "cache_create_tokens" Fields.cacheWrite (fun f n => { f with cacheWrite := some n })
        TokenCount.take,
      .of "cache_read_tokens" Fields.cacheRead (fun f n => { f with cacheRead := some n })
        TokenCount.take,
      .of "cache_creation" Fields.known (fun f w => { f with known := some w })
        (Json.orNull CacheWrites.take)]
  allRequired := false

def ofFields (f : Fields) : Usage where
  input := f.input.getD .zero
  output := f.output.getD .zero
  cacheWrite := f.cacheWrite.getD .zero
  cacheRead := f.cacheRead.getD .zero
  known := f.known.getD none

def take : Json.Reader Usage := fun bytes =>
  (layout.read {} bytes).map fun (fields, rest) => (ofFields fields, rest)

/-- Reads a text that holds nothing but the JSON form. -/
def read (bytes : Bytes) : Except Json.Error Usage :=
  Json.whole take bytes

def toJson (order : Json.MemberOrder) (u : Usage) : Json.Value :=
  order.object
    ([("input_tokens", u.input.toJson), ("output_tokens", u.output.toJson),
        ("cache_create_tokens", u.cacheWrite.toJson), ("cache_read_tokens", u.cacheRead.toJson)] ++
      u.known.toList.map fun writes => ("cache_creation", writes.toJson order))

end Usage

end TokenTariff
