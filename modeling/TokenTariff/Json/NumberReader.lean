import TokenTariff.Json.Reader
/-!
# Reading JSON numbers

A number is read into a significand of at most 64 bits and a power of ten.

* A whole number that fits in 64 bits is exact, except that minus zero and what lies below the
  signed range become doubles.
* The digits from the first one on that would overflow the significand are dropped; those before
  the point then count as powers of ten.
* A double is the significand times or divided by the power of ten, each a double, in one
  operation; powers of ten below `10 ^ -308` are divided off in steps. This is not always the
  double nearest to the decimal.
-/

namespace TokenTariff.Json
set_option autoImplicit false

/-- The first whole number that does not fit in 64 bits. -/
def significandLimit : Nat := 0x10000000000000000

/-- Appends digits to a significand as long as they fit; with the number of digits left over. -/
def extendSignificand (significand : Nat) : Bytes → Nat × Nat
  | [] => (significand, 0)
  | d :: ds =>
    let next := significand * 10 + digitValue d
    if next < significandLimit then extendSignificand next ds else (significand, ds.length + 1)

/-- The greatest power of ten that is a double. -/
def greatestPower : Nat := 308

/-- The double nearest to `10 ^ n`. -/
def powerOfTen (n : Nat) : Float :=
  Float.ofScientific 1 false n

/-- The double for `x * 10 ^ power`; `none` if it is too large. The steps count the divisions by
the greatest power of ten, of which a few make every double zero. -/
def scaleByTen : (steps : Nat) → (x : Float) → (power : Int) → Option Float
  | steps, x, power =>
    if power.natAbs ≤ greatestPower then
      if 0 ≤ power then
        let scaled := x * powerOfTen power.natAbs
        if scaled.isInf then none else some scaled
      else some (x / powerOfTen power.natAbs)
    else if x == 0 then some x
    else if 0 < power then none
    else
      match steps with
      | 0 => some 0
      | steps + 1 => scaleByTen steps (x / powerOfTen greatestPower) (power + greatestPower)

/-- Enough divisions by the greatest power of ten to make every significand zero. -/
def scaleSteps : Nat := 4

/-- The double with a sign for `significand * 10 ^ power`. -/
def assemble (negative : Bool) (significand : Nat) (power : Int) : Except Error Number :=
  match scaleByTen scaleSteps (Float.ofNat significand) power with
  | none => .error .numberTooLarge
  | some x => .ok (.double (if negative then -x else x))

/-- A whole number as it is kept: exact in the signed or unsigned range of 64 bits. -/
def ofWhole (negative : Bool) (significand : Nat) : Number :=
  if !negative then .integer significand
  else if significand = 0 ∨ 0x8000000000000000 < significand then .double (-Float.ofNat significand)
  else .integer (-significand)

/-- The greatest exponent that is taken as it stands. -/
def greatestExponent : Nat := 0x7FFFFFFF

/-- The double with a sign for `significand * 10 ^ power` and an exponent, which counts down or
up. -/
def assembleExponent (negative : Bool) (significand : Nat) (power : Int) (down : Bool)
    (exponent : Nat) : Except Error Number :=
  if exponent ≤ greatestExponent then
    assemble negative significand (if down then power - exponent else power + exponent)
  else if significand ≠ 0 ∧ !down then .error .numberTooLarge
  else .ok (.double (if negative then -0.0 else 0.0))

def exponentDigits (negative : Bool) (significand : Nat) (power : Int) (down : Bool) :
    Reader Number := fun bytes =>
  let digits := bytes.takeWhile isDigit
  let rest := bytes.dropWhile isDigit
  if digits.isEmpty then .error (if rest.isEmpty then .endInValue else .badNumber)
  else
    let exponent := digits.foldl (fun n d => n * 10 + digitValue d) 0
    (assembleExponent negative significand power down exponent).map (·, rest)

/-- Reads what follows the letter of an exponent. -/
def exponentPart (negative : Bool) (significand : Nat) (power : Int) : Reader Number
  | b :: rest =>
    if b = minusSign then exponentDigits negative significand power true rest
    else if b = plusSign then exponentDigits negative significand power false rest
    else exponentDigits negative significand power false (b :: rest)
  | [] => exponentDigits negative significand power false []

def optionalExponent (negative : Bool) (significand : Nat) (power : Int) : Reader Number
  | b :: rest =>
    if isExponentMark b then exponentPart negative significand power rest
    else (assemble negative significand power).map (·, b :: rest)
  | [] => (assemble negative significand power).map (·, [])

def fractionPart (negative : Bool) (significand : Nat) (power : Int) : Reader Number := fun bytes =>
  let digits := bytes.takeWhile isDigit
  let rest := bytes.dropWhile isDigit
  if digits.isEmpty then .error (if rest.isEmpty then .endInValue else .badNumber)
  else
    let (extended, dropped) := extendSignificand significand digits
    optionalExponent negative extended (power - (digits.length - dropped : Nat)) rest

/-- Reads what follows the digits before the point. -/
def afterWholePart (negative : Bool) (significand dropped : Nat) : Reader Number
  | b :: rest =>
    if b = point then fractionPart negative significand dropped rest
    else if isExponentMark b then exponentPart negative significand dropped rest
    else if dropped = 0 then .ok (ofWhole negative significand, b :: rest)
    else (assemble negative significand dropped).map (·, b :: rest)
  | [] =>
    if dropped = 0 then .ok (ofWhole negative significand, [])
    else (assemble negative significand dropped).map (·, [])

/-- Reads a number after its sign. -/
def unsignedNumber (negative : Bool) : Reader Number
  | [] => .error .endInValue
  | b :: rest =>
    if b = 0x30 then
      if rest.head?.any isDigit then .error .badNumber else afterWholePart negative 0 0 rest
    else if isDigit b then
      let digits := (b :: rest).takeWhile isDigit
      let (significand, dropped) := extendSignificand 0 digits
      afterWholePart negative significand dropped ((b :: rest).dropWhile isDigit)
    else .error .badNumber

def number : Reader Number
  | [] => .error .endInValue
  | b :: rest => if b = minusSign then unsignedNumber true rest else unsignedNumber false (b :: rest)

end TokenTariff.Json
