import TokenTariff.Json.Reader
/-!
# Reading JSON strings

A string is read byte by byte by a small machine. Four hexadecimal digits are judged when all of
them have been read; a pair of surrogates makes one character; the bytes of the whole string have
to be UTF-8, which is judged at the closing quote.
-/

namespace TokenTariff.Json
set_option autoImplicit false

/-- Where the machine stands: between characters, after a backslash, inside the digits of an escape
or on the way from a leading surrogate to the escape of its partner. -/
inductive StringPlace where
  | plain
  | escape
  | digits (lead : Option Nat) (seen : Bytes)
  | afterLead (lead : Nat)
  | afterLeadBackslash (lead : Nat)

/-- What one byte does: it ends the string, or it leads on and may complete some bytes of it. -/
inductive StringStep where
  | finished
  | onward (place : StringPlace) (written : Bytes)

/-- The byte that a letter after a backslash stands for. -/
def simpleEscape? (b : UInt8) : Option UInt8 :=
  [(quoteMark, quoteMark), (backslash, backslash), (0x2F, 0x2F), (0x62, 0x08), (0x66, 0x0C),
    (0x6E, 0x0A), (0x72, 0x0D), (0x74, 0x09)].lookup b

def hexValue? (b : UInt8) : Option Nat :=
  if isDigit b then some (digitValue b)
  else if 0x61 ≤ b && b ≤ 0x66 then some (b.toNat - 0x61 + 10)
  else if 0x41 ≤ b && b ≤ 0x46 then some (b.toNat - 0x41 + 10)
  else none

/-- The number that hexadecimal digits stand for. -/
def hexNumber? (digits : Bytes) : Option Nat :=
  digits.foldlM (fun n b => (hexValue? b).map (n * 16 + ·)) 0

def isLeadingSurrogate (n : Nat) : Bool :=
  0xD800 ≤ n && n ≤ 0xDBFF

def isTrailingSurrogate (n : Nat) : Bool :=
  0xDC00 ≤ n && n ≤ 0xDFFF

def encodeCode (n : Nat) : Bytes :=
  String.utf8EncodeChar (Char.ofNat n)

/-- What four hexadecimal digits do. -/
def StringStep.ofCode (lead : Option Nat) (code : Nat) : Except Error StringStep :=
  match lead with
  | none =>
    if isTrailingSurrogate code then .error .unpairedSurrogate
    else if isLeadingSurrogate code then .ok (.onward (.afterLead code) [])
    else .ok (.onward .plain (encodeCode code))
  | some lead =>
    if isTrailingSurrogate code then
      .ok (.onward .plain (encodeCode (0x10000 + (lead - 0xD800) * 0x400 + (code - 0xDC00))))
    else .error .unpairedSurrogate

def StringPlace.step : StringPlace → UInt8 → Except Error StringStep
  | plain, b =>
    if b = quoteMark then .ok .finished
    else if b = backslash then .ok (.onward .escape [])
    else if b < 0x20 then .error .controlCharacter
    else .ok (.onward .plain [b])
  | escape, b =>
    match simpleEscape? b with
    | some c => .ok (.onward .plain [c])
    | none => if b = letterU then .ok (.onward (.digits none []) []) else .error .badEscape
  | digits lead seen, b =>
    let seen := seen ++ [b]
    if seen.length < 4 then .ok (.onward (.digits lead seen) [])
    else
      match hexNumber? seen with
      | none => .error .badEscape
      | some code => StringStep.ofCode lead code
  | afterLead lead, b =>
    if b = backslash then .ok (.onward (.afterLeadBackslash lead) []) else .error .missingSurrogate
  | afterLeadBackslash lead, b =>
    if b = letterU then .ok (.onward (.digits (some lead) []) []) else .error .missingSurrogate

/-- The bytes that a string stands for, read from a place on up to the closing quote. -/
def stringBytes : StringPlace → Reader Bytes
  | _, [] => .error .endInString
  | place, b :: rest =>
    match place.step b with
    | .error e => .error e
    | .ok .finished => .ok ([], rest)
    | .ok (.onward next written) =>
      (stringBytes next rest).map fun (bytes, rest) => (written ++ bytes, rest)

/-- Reads a string after its opening quote. -/
def stringBody : Reader String := fun bytes => do
  let (content, rest) ← stringBytes .plain bytes
  match Bytes.text? content with
  | some text => .ok (text, rest)
  | none => .error .badUtf8

end TokenTariff.Json
