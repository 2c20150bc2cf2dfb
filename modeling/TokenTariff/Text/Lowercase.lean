import TokenTariff.Text.CaseRuns
/-!
# Lower case

The lower-case form of a text, one character at a time. One character, the capital I with a dot
above, has a lower-case form of two characters; every other form is one character. The rule for
a sigma at the end of a word is not applied: it chooses between two Greek letters, and every word
that is looked for in lower-case text is written in ASCII.

* `lowerChar` and `lowercase` give the forms;
* `lowercase_append` says that lower-casing goes through a text character by character.
-/

namespace TokenTariff.Text
set_option autoImplicit false

def lowerBeyondAscii (c : Char) : List Char :=
  if c.toNat = 0x130 then ['i', '\u0307']
  else
    match caseRuns.find? (·.holds c.toNat) with
    | some run => [Char.ofNat (c.toNat + run.shift).toNat]
    | none => [c]

def lowerChar (c : Char) : List Char :=
  if c.toNat < 0x80 then
    [if 'A' ≤ c ∧ c ≤ 'Z' then Char.ofNat (c.toNat + 32) else c]
  else lowerBeyondAscii c

def lowercase (text : String) : String :=
  String.ofList (text.toList.flatMap lowerChar)

@[simp] theorem toList_lowercase (text : String) :
    (lowercase text).toList = text.toList.flatMap lowerChar := by
  simp [lowercase]

theorem lowercase_append (a b : String) : lowercase (a ++ b) = lowercase a ++ lowercase b := by
  simp [lowercase]

end TokenTariff.Text
