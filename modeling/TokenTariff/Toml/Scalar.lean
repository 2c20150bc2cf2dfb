import TokenTariff.Toml.Reader
/-!
# Words of TOML: booleans, numbers, times

A value that is neither a string nor put together is one word. Of a float and of a time only that
they are well formed is of interest here.

* `integer?` reads whole numbers, in base ten or after the mark of another base;
* `isFloat` and `isTime` recognise floats and times.
-/

namespace TokenTariff.Toml
set_option autoImplicit false

/-! ## Whole numbers -/

/-- The digits of a number, between which single underscores may stand. -/
def digits? (isDigit : Char → Bool) : List Char → Option (List Char)
  | [] => none
  | [c] => if isDigit c then some [c] else none
  | c :: '_' :: rest => if isDigit c then (digits? isDigit rest).map (c :: ·) else none
  | c :: rest => if isDigit c then (digits? isDigit rest).map (c :: ·) else none

/-- The digits of a number in base ten, which begins with zero only if it is zero. -/
def decimalDigits? (word : List Char) : Option (List Char) := do
  let digits ← digits? isDigit word
  if digits.length > 1 ∧ digits.head? = some '0' then none else some digits

/-- Whether a word begins with a minus sign, and what follows its sign. -/
def takeSign : List Char → Bool × List Char
  | '-' :: rest => (true, rest)
  | '+' :: rest => (false, rest)
  | word => (false, word)

/-- The whole number that a word writes. -/
def wholeNumber? : List Char → Option Int
  | '0' :: 'x' :: rest => (digits? isHexDigit rest).map fun digits => naturalOf 16 digits
  | '0' :: 'o' :: rest => (digits? (fun c => '0' ≤ c && c ≤ '7') rest).map fun digits => naturalOf 8 digits
  | '0' :: 'b' :: rest => (digits? (fun c => c == '0' || c == '1') rest).map fun digits => naturalOf 2 digits
  | word => do
    let (negative, unsigned) := takeSign word
    let magnitude : Int := naturalOf 10 (← decimalDigits? unsigned)
    some (if negative then -magnitude else magnitude)

/-- The whole number that a word writes, if it fits into 128 bits with or without a sign. -/
def integer? (word : List Char) : Option Int := do
  let n ← wholeNumber? word
  if -0x80000000000000000000000000000000 ≤ n ∧ n < 0x100000000000000000000000000000000 then some n
  else none

/-! ## Floats -/

/-- The least magnitude that no double is nearest to. -/
def overflow : Nat := Nat.pow 2 1024 - Nat.pow 2 970

/-- Whether the decimal `digits · 10 ^ exponent` lies below the overflow. -/
def isFinite (digits : List Char) (exponent : Int) : Bool :=
  let significand := naturalOf 10 digits
  if significand = 0 then true
  else if exponent ≥ 0 then
    exponent < 310 && significand * Nat.pow 10 exponent.toNat < overflow
  else
    digits.length ≤ (-exponent).toNat || significand < overflow * Nat.pow 10 (-exponent).toNat

/-- The exponent that ends a word, zero if there is nothing. -/
def exponent? : List Char → Option Int
  | [] => some 0
  | c :: rest =>
    if c = 'e' ∨ c = 'E' then do
      let (negative, unsigned) := takeSign rest
      let magnitude : Int := naturalOf 10 (← digits? isDigit unsigned)
      some (if negative then -magnitude else magnitude)
    else none

def isExponentMark (c : Char) : Bool :=
  c == 'e' || c == 'E'

/-- Whether a word writes a float that is finite, infinite or no number. -/
def isFloat (word : List Char) : Bool :=
  let (_, unsigned) := takeSign word
  if unsigned = ['i', 'n', 'f'] ∨ unsigned = ['n', 'a', 'n'] then true
  else
    let whole := unsigned.takeWhile fun c => c != '.' && !isExponentMark c
    match unsigned.drop whole.length with
    | [] => false
    | '.' :: rest =>
      let fraction := rest.takeWhile fun c => !isExponentMark c
      match decimalDigits? whole, digits? isDigit fraction, exponent? (rest.drop fraction.length) with
      | some whole, some fraction, some exponent =>
        isFinite (whole ++ fraction) (exponent - fraction.length)
      | _, _, _ => false
    | rest =>
      match decimalDigits? whole, exponent? rest with
      | some whole, some exponent => isFinite whole exponent
      | _, _ => false

/-! ## Times -/

/-- Takes a number of exactly `count` digits that is at most `most`. -/
def fixedNumber (count most : Nat) : Reader Nat := fun text =>
  let digits := text.take count
  let n := naturalOf 10 digits
  if digits.length = count && digits.all isDigit && n ≤ most then some (n, text.drop count)
  else none

def daysOfMonth (year month : Nat) : Nat :=
  if month = 2 then
    if year % 400 = 0 ∨ (year % 4 = 0 ∧ year % 100 ≠ 0) then 29 else 28
  else if month = 4 ∨ month = 6 ∨ month = 9 ∨ month = 11 then 30
  else 31

def takeDate (text : List Char) : Option (List Char) := do
  let (year, text) ← fixedNumber 4 9999 text
  let text ← takeChar '-' text
  let (month, text) ← fixedNumber 2 12 text
  let text ← takeChar '-' text
  let (day, text) ← fixedNumber 2 (daysOfMonth year month) text
  if month = 0 ∨ day = 0 then none else some text

/-- Takes a time of day from the front; it may lack the seconds. -/
def takeClock (text : List Char) : Option (List Char) := do
  let (_, text) ← fixedNumber 2 23 text
  let text ← takeChar ':' text
  let (_, text) ← fixedNumber 2 59 text
  match text with
  | ':' :: text => do
    let (_, text) ← fixedNumber 2 60 text
    match text with
    | '.' :: c :: rest => if isDigit c then some (rest.dropWhile isDigit) else none
    | text => some text
  | text => some text

/-- Whether a text is the distance of a place from universal time, or empty. -/
def isOffset : List Char → Bool
  | [] | ['Z'] | ['z'] => true
  | c :: text =>
    (c == '+' || c == '-') &&
      (do
        let (_, text) ← fixedNumber 2 23 text
        let text ← takeChar ':' text
        fixedNumber 2 59 text) matches some (_, [])

/-- Whether a word writes a date, a time of day, or both. -/
def isTime (word : List Char) : Bool :=
  match takeDate word with
  | some [] => true
  | some (c :: rest) =>
    (c == 'T' || c == 't' || c == ' ') && ((takeClock rest).map isOffset).getD false
  | none => takeClock word == some []

end TokenTariff.Toml
