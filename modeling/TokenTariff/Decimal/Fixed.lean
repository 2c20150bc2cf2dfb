import TokenTariff.Decimal.Binary
/-!
# A fixed number of decimal places

The decimal text of a double with a given number of places. The exact value is rounded to the
nearest multiple of the last place, and a value half-way between two multiples goes to the even
one. The sign is that of the double, also when all the digits are zeros.

* `roundHalfEven` rounds a quotient;
* `fixedText` writes a double.
-/

namespace TokenTariff.Decimal
set_option autoImplicit false

/-- The whole number nearest to `num / den`; of two that are equally near the even one. -/
def roundHalfEven (num den : Nat) : Nat :=
  let floor := num / den
  let rest := 2 * (num % den)
  if rest < den then floor
  else if den < rest then floor + 1
  else if floor % 2 = 0 then floor else floor + 1

def digits (n : Nat) : List Char :=
  Nat.toDigits 10 n

/-- A natural number with at least `width` digits, filled up with zeros on the left. -/
def paddedDigits (width n : Nat) : List Char :=
  let text := digits n
  List.replicate (width - text.length) '0' ++ text

/-- The text of `units / 10 ^ places`. -/
def placed (places units : Nat) : List Char :=
  if places = 0 then digits units
  else digits (units / Nat.pow 10 places) ++ '.' :: paddedDigits places (units % Nat.pow 10 places)

/-- The text of a double with `places` digits after the point. -/
def fixedText (places : Nat) (x : Float) : String :=
  let sign := if isNegative x then "-" else ""
  match Magnitude.ofFloat x with
  | .notANumber => "NaN"
  | .infinite => sign ++ "inf"
  | .finite value =>
    let (num, den) := value.timesPowerOfTen places
    sign ++ String.ofList (placed places (roundHalfEven num den))

end TokenTariff.Decimal
