import TokenTariff.Tariff.TokenCount
/-!
# Usage of a request

The tokens of one request: what was read, what was written, and what went into and came out of the
provider's cache. Tokens that go into the cache are kept for five minutes or for an hour, at
different rates; a request may tell how many are kept for how long.

* `Usage.totalInput` is the size of the context;
* `Usage.cacheWrites` divides the tokens that go into the cache by the time for which they are kept.
-/

namespace TokenTariff
set_option autoImplicit false

/-- Tokens that go into the cache, by the time for which they are kept. -/
structure CacheWrites where
  fiveMinutes : TokenCount
  oneHour : TokenCount
  deriving DecidableEq

structure Usage where
  input : TokenCount
  output : TokenCount
  /-- All tokens that go into the cache. -/
  cacheWrite : TokenCount
  cacheRead : TokenCount
  /-- Those of which it is known for how long they are kept. -/
  known : Option CacheWrites
  deriving DecidableEq

namespace Usage

def zero : Usage := ⟨.zero, .zero, .zero, .zero, none⟩

/-- The size of the context: all tokens that the model read. -/
def totalInput (u : Usage) : TokenCount :=
  u.input + u.cacheWrite + u.cacheRead

/-- The tokens that go into the cache. Those that nothing is known about are kept for five minutes;
neither part is negative. -/
def cacheWrites (u : Usage) : CacheWrites :=
  match u.known with
  | none => ⟨u.cacheWrite.nonnegative, .zero⟩
  | some known =>
    let unknown := u.cacheWrite - known.fiveMinutes - known.oneHour
    let fiveMinutes := if 0 < unknown.val then known.fiveMinutes + unknown else known.fiveMinutes
    ⟨fiveMinutes.nonnegative, known.oneHour.nonnegative⟩

end Usage

end TokenTariff
