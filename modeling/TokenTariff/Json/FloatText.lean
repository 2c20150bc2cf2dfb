import TokenTariff.Decimal.Shortest
/-!
# Doubles in JSON

The JSON text of a finite double: the fewest digits that read back, and always a mark that tells
a double from a whole number. Exponents from -5 to 15 are written out, as in `0.00001` and
`1500000.0`; beyond them one digit stands before the point and the exponent has a sign, as in
`1.5e-7` and `1e+16`.
-/

namespace TokenTariff.Json
set_option autoImplicit false

/-- Whether the double whose first digit stands at `10 ^ exponent` is written out. -/
def isWrittenOut (exponent : Int) : Bool :=
  -5 ≤ exponent && exponent ≤ 15

/-- The decimal `0.digits * 10 ^ point` written out, with at least one digit on each side. -/
def writtenOut (digits : List Char) (point : Int) : List Char :=
  let zeros (n : Int) := List.replicate n.toNat '0'
  let whole := digits.take point.toNat ++ zeros (point - digits.length)
  let fraction := zeros (-point) ++ digits.drop point.toNat
  (if whole.isEmpty then ['0'] else whole) ++ '.' :: (if fraction.isEmpty then ['0'] else fraction)

/-- A decimal with one digit before the point and an exponent. -/
def withExponent (digits : List Char) (exponent : Int) : List Char :=
  let fraction := digits.drop 1
  digits.take 1 ++ (if fraction.isEmpty then [] else '.' :: fraction) ++ 'e' ::
    (if exponent < 0 then '-' else '+') :: Nat.toDigits 10 exponent.natAbs

def positiveText (value : Decimal.Binary) : List Char :=
  let shortest := Decimal.shortest value
  let digits := Nat.toDigits 10 shortest.number
  let exponent := shortest.power + digits.length - 1
  if isWrittenOut exponent then writtenOut digits (exponent + 1) else withExponent digits exponent

/-- The JSON text of a double, if it is finite; a zero keeps its sign. -/
def floatText? (x : Float) : Option String :=
  let sign := if Decimal.isNegative x then "-" else ""
  match Decimal.Magnitude.ofFloat x with
  | .finite value =>
    let text := if value.significand = 0 then ['0', '.', '0'] else positiveText value
    some (sign ++ String.ofList text)
  | .infinite => none
  | .notANumber => none

end TokenTariff.Json
