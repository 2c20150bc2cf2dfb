/-!
# The value of a double

A double is a sign with a whole number times a power of two, or infinite, or not a number.
`Magnitude.ofFloat` takes it apart; everything that writes doubles in decimal starts from there and
calculates exactly.
-/

namespace TokenTariff.Decimal
set_option autoImplicit false

/-- The value `significand * 2 ^ exponent`, and whether the doubles below it lie closer. -/
structure Binary where
  significand : Nat
  exponent : Int
  /-- True of a power of two, where the spacing of the doubles below is half of that above. -/
  tightBelow : Bool

/-- The absolute value of a double. -/
inductive Magnitude where
  | finite (value : Binary)
  | infinite
  | notANumber

def isNegative (x : Float) : Bool :=
  0x8000000000000000 ≤ x.toBits.toNat

/-- The absolute value of the double with the given bits. -/
def Magnitude.ofBits (bits : Nat) : Magnitude :=
  let fraction : Nat := bits % 0x10000000000000
  let scale : Nat := bits / 0x10000000000000 % 0x800
  if scale = 2047 then
    if fraction = 0 then .infinite else .notANumber
  else if scale = 0 then .finite ⟨fraction, -1074, false⟩
  else .finite ⟨0x10000000000000 + fraction, (scale : Int) - 1075, fraction == 0 && scale != 1⟩

def Magnitude.ofFloat (x : Float) : Magnitude :=
  ofBits x.toBits.toNat

/-- A quotient of two naturals that stands for `value * 10 ^ power`. -/
def Binary.timesPowerOfTen (value : Binary) (power : Int) : Nat × Nat :=
  (value.significand * Nat.pow 2 value.exponent.toNat * Nat.pow 10 power.toNat,
    Nat.pow 2 (-value.exponent).toNat * Nat.pow 10 (-power).toNat)

end TokenTariff.Decimal
