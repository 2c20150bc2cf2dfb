/-!
# Text as bytes

The UTF-8 form of a text, and the text of a byte list that is one.

* `Bytes.ofText` writes each character in one to four bytes;
* `Bytes.text?` reads them back, and gives `none` unless the whole list is well formed: no byte out
  of place, no character in more bytes than it needs, no surrogate, nothing above 10FFFF.
-/

namespace TokenTariff
set_option autoImplicit false

/-- Uninterpreted content, such as that of a file. -/
abbrev Bytes := List UInt8

namespace Bytes

/-- The UTF-8 form of a text. -/
def ofText (text : String) : Bytes :=
  text.toList.flatMap String.utf8EncodeChar

@[simp] theorem ofText_append (a b : String) : ofText (a ++ b) = ofText a ++ ofText b := by
  simp [ofText]

/-- Whether a byte continues a character that an earlier byte began. -/
def continues (b : UInt8) : Bool :=
  b &&& 0xC0 == 0x80

/-- The six bits that a continuing byte adds. -/
def sixBits (b : UInt8) : Nat :=
  (b &&& 0x3F).toNat

/-- The character with a code point of at least `least`, if there is one. -/
def scalar? (least code : Nat) : Option Char :=
  if h : code.isValidChar then
    if least ≤ code then some (Char.ofNatAux code h) else none
  else none

def twoBytes? (a b : UInt8) : Option Char :=
  if a &&& 0xE0 == 0xC0 && continues b then
    scalar? 0x80 ((a &&& 0x1F).toNat * 64 + sixBits b)
  else none

def threeBytes? (a b c : UInt8) : Option Char :=
  if a &&& 0xF0 == 0xE0 && continues b && continues c then
    scalar? 0x800 (((a &&& 0x0F).toNat * 64 + sixBits b) * 64 + sixBits c)
  else none

def fourBytes? (a b c d : UInt8) : Option Char :=
  if a &&& 0xF8 == 0xF0 && continues b && continues c && continues d then
    scalar? 0x10000 ((((a &&& 0x07).toNat * 64 + sixBits b) * 64 + sixBits c) * 64 + sixBits d)
  else none

/-- The characters of a well-formed byte list. -/
def characters? : Bytes → Option (List Char)
  | [] => some []
  | a :: rest =>
    if a < 0x80 then (characters? rest).map (Char.ofNat a.toNat :: ·)
    else
      match rest with
      | [] => none
      | b :: rest =>
        match twoBytes? a b with
        | some char => (characters? rest).map (char :: ·)
        | none =>
          match rest with
          | [] => none
          | c :: rest =>
            match threeBytes? a b c with
            | some char => (characters? rest).map (char :: ·)
            | none =>
              match rest with
              | [] => none
              | d :: rest =>
                match fourBytes? a b c d with
                | some char => (characters? rest).map (char :: ·)
                | none => none

/-- The text whose UTF-8 form a byte list is. -/
def text? (bytes : Bytes) : Option String :=
  (characters? bytes).map String.ofList

end Bytes

end TokenTariff
