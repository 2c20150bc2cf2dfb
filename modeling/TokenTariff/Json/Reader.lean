import TokenTariff.Json.Error
import TokenTariff.Json.Value
/-!
# Reading JSON: bytes, blanks, words

A reader takes what it wants from the front of a byte list and gives the rest, or says what is
wrong at the first place where something is.
-/

namespace TokenTariff.Json
set_option autoImplicit false

abbrev Reader (α : Type) : Type := Bytes → Except Error (α × Bytes)

/-! ## Bytes -/

def quoteMark : UInt8 := 0x22
def backslash : UInt8 := 0x5C
def comma : UInt8 := 0x2C
def colon : UInt8 := 0x3A
def openList : UInt8 := 0x5B
def closeList : UInt8 := 0x5D
def openObject : UInt8 := 0x7B
def closeObject : UInt8 := 0x7D
def minusSign : UInt8 := 0x2D
def plusSign : UInt8 := 0x2B
def point : UInt8 := 0x2E
def letterU : UInt8 := 0x75

def isBlank (b : UInt8) : Bool :=
  b == 0x20 || b == 0x0A || b == 0x0D || b == 0x09

def isDigit (b : UInt8) : Bool :=
  0x30 ≤ b && b ≤ 0x39

def digitValue (b : UInt8) : Nat :=
  b.toNat - 0x30

def isExponentMark (b : UInt8) : Bool :=
  b == 0x65 || b == 0x45

/-- The bytes after the blanks. -/
def skipBlanks (bytes : Bytes) : Bytes :=
  bytes.dropWhile isBlank

/-! ## Words -/

/-- The words of JSON: the first letter, the letters after it, and the value. -/
def words : List (UInt8 × Bytes × Value) :=
  [(0x6E, [0x75, 0x6C, 0x6C], .null), (0x74, [0x72, 0x75, 0x65], .boolean true),
    (0x66, [0x61, 0x6C, 0x73, 0x65], .boolean false)]

/-- The letters and the value of the word that begins with `b`. -/
def word? (b : UInt8) : Option (Bytes × Value) :=
  words.lookup b

/-- Takes the given letters from the front. -/
def takeLetters : (letters : Bytes) → Bytes → Except Error Bytes
  | [], bytes => .ok bytes
  | _ :: _, [] => .error .endInValue
  | letter :: letters, b :: bytes =>
    if b = letter then takeLetters letters bytes else .error .unknownWord

/-! ## Ends -/

def takeColon (bytes : Bytes) : Except Error Bytes :=
  match skipBlanks bytes with
  | [] => .error .endInObject
  | b :: rest => if b = colon then .ok rest else .error .missingColon

/-- What `read` gives on a text that holds nothing else. -/
def whole {α : Type} (read : Reader α) (bytes : Bytes) : Except Error α := do
  let (result, rest) ← read bytes
  if (skipBlanks rest).isEmpty then .ok result else .error .trailingText

end TokenTariff.Json
