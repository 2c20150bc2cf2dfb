import TokenTariff.Text.ShownByCode
/-!
# Text quoted in a message

A text between double quotes, so that a reader of a message sees every character of it. A quote and
a backslash get a backslash; zero, tab, line feed and carriage return have short escapes; what has
no image of its own is shown by its code in hexadecimal digits.
-/

namespace TokenTariff.Text
set_option autoImplicit false

def isShownByCode (c : Char) : Bool :=
  if c.toNat < 0x7F then c.toNat < 0x20
  else shownByCode.any fun run => run.1 ≤ c.toNat && c.toNat ≤ run.2

/-- The image of a character in a message. -/
def quotedChar (c : Char) : List Char :=
  if c = '"' then ['\\', '"']
  else if c = '\\' then ['\\', '\\']
  else if c = '\x00' then ['\\', '0']
  else if c = '\t' then ['\\', 't']
  else if c = '\r' then ['\\', 'r']
  else if c = '\n' then ['\\', 'n']
  else if isShownByCode c then '\\' :: 'u' :: '\x7b' :: Nat.toDigits 16 c.toNat ++ ['\x7d']
  else [c]

def quoted (text : String) : String :=
  "\"" ++ String.ofList (text.toList.flatMap quotedChar) ++ "\""

end TokenTariff.Text
