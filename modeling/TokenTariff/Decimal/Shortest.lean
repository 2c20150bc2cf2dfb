import TokenTariff.Decimal.Binary
/-!
# The shortest decimal of a double

The decimal with the fewest digits that reads back as a given double, and of those the one nearest
to its value. A decimal reads back when it lies in the double's rounding interval: no farther from
it than half the way to a neighbouring double, the ends included when the significand is even.

Fewest digits means the coarsest grid: the search goes down the powers of ten and stops at the
first of which a multiple lies in the interval.

* `Interval.ofBinary` is the rounding interval;
* `Interval.multiple?` finds a multiple of a power of ten in it;
* `shortest` is the result of the search.
-/

namespace TokenTariff.Decimal
set_option autoImplicit false

/-- The reals from `low` to `high` around `value`, all three in units of `2 ^ exponent`. -/
structure Interval where
  low : Nat
  value : Nat
  high : Nat
  exponent : Int
  /-- Whether the two ends belong to the interval. -/
  closed : Bool

/-- The reals that are rounded to a double, in quarters of its last binary place. -/
def Interval.ofBinary (x : Binary) : Interval where
  low := 4 * x.significand - (if x.tightBelow then 1 else 2)
  value := 4 * x.significand
  high := 4 * x.significand + 2
  exponent := x.exponent - 2
  closed := x.significand % 2 == 0

/-- Whether the number `n / scale` lies in the interval. -/
def Interval.holds (i : Interval) (n scale : Nat) : Bool :=
  if i.closed then i.low * scale ≤ n && n ≤ i.high * scale
  else i.low * scale < n && n < i.high * scale

/-- The multiplier of `10 ^ power` that brings it into the interval and nearest to the value; of two
that are equally near the even one. -/
def Interval.multiple? (i : Interval) (power : Int) : Option Nat :=
  let step := Nat.pow 10 power.toNat * Nat.pow 2 (-i.exponent).toNat
  let scale := Nat.pow 10 (-power).toNat * Nat.pow 2 i.exponent.toNat
  let below := i.value * scale / step
  let above := below + 1
  match i.holds (below * step) scale, i.holds (above * step) scale with
  | false, false => none
  | true, false => some below
  | false, true => some above
  | true, true =>
    let toBelow := i.value * scale - below * step
    let toAbove := above * step - i.value * scale
    if toBelow < toAbove then some below
    else if toAbove < toBelow then some above
    else if below % 2 = 0 then some below else some above

/-- The decimal `digits * 10 ^ power`. -/
structure Digits where
  number : Nat
  power : Int

/-- The first hit among `10 ^ power`, `10 ^ (power - 1)`, … after at most `steps` misses. -/
def Interval.search (i : Interval) : (steps : Nat) → (power : Int) → Option Digits
  | 0, _ => none
  | steps + 1, power =>
    match i.multiple? power with
    | some digits => some ⟨digits, power⟩
    | none => i.search steps (power - 1)

/-- A power of ten above every double, where the search begins. -/
def topPower : Int := 309

/-- Enough steps to reach the last decimal place that any double has. -/
def searchSteps : Nat := 1400

/-- The shortest decimal that reads back as a positive double, nearest to it. -/
def shortest (x : Binary) : Digits :=
  ((Interval.ofBinary x).search searchSteps topPower).getD ⟨0, 0⟩

end TokenTariff.Decimal
