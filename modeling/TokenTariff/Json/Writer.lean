import TokenTariff.Json.FloatText
import TokenTariff.Json.Value
/-!
# Writing JSON

The text of a JSON value, on one line or with two blanks of indentation for each level. Strings
escape the quote, the backslash and the controls below 20; all else stands as it is. A double that
is not finite has no JSON text and is written as `null`.
-/

namespace TokenTariff.Json
set_option autoImplicit false

/-! ## Strings -/

/-- The escapes that have a letter of their own. -/
def letterEscape? (c : Char) : Option Char :=
  [('"', '"'), ('\\', '\\'), ('\x08', 'b'), ('\x0c', 'f'), ('\n', 'n'), ('\r', 'r'),
    ('\t', 't')].lookup c

def hexDigit (n : Nat) : Char :=
  Nat.digitChar n

/-- A character as it stands in a string. -/
def escapedChar (c : Char) : List Char :=
  match letterEscape? c with
  | some letter => ['\\', letter]
  | none =>
    if c.toNat < 0x20 then ['\\', 'u', '0', '0', hexDigit (c.toNat / 16), hexDigit (c.toNat % 16)]
    else [c]

def stringText (text : String) : String :=
  "\"" ++ String.ofList (text.toList.flatMap escapedChar) ++ "\""

def numberText : Number → String
  | .integer n => toString n
  | .double x => (floatText? x).getD "null"

/-! ## Values -/

/-- The order in which an object lists its members. -/
inductive MemberOrder where
  | declared
  | byName

/-- The members in the order of their names. -/
def sortMembers (members : List (String × Value)) : List (String × Value) :=
  members.mergeSort fun a b => a.1 ≤ b.1

/-- The object with the given members in the given order. -/
def MemberOrder.object (order : MemberOrder) (members : List (String × Value)) : Value :=
  match order with
  | declared => .object members
  | byName => .object (sortMembers members)

mutual

/-- The text of a value on one line. -/
def compact : Value → String
  | .null => "null"
  | .boolean b => if b then "true" else "false"
  | .number n => numberText n
  | .string text => stringText text
  | .list items => "[" ++ compactItems items ++ "]"
  | .object members => "\x7b" ++ compactMembers members ++ "\x7d"

/-- The texts of the items of a list, with commas between them. -/
def compactItems : List Value → String
  | [] => ""
  | [item] => compact item
  | item :: next :: rest => compact item ++ "," ++ compactItems (next :: rest)

/-- The texts of the members of an object, with commas between them. -/
def compactMembers : List (String × Value) → String
  | [] => ""
  | [(name, value)] => stringText name ++ ":" ++ compact value
  | (name, value) :: next :: rest =>
    stringText name ++ ":" ++ compact value ++ "," ++ compactMembers (next :: rest)

end

/-- A new line with the blanks of a level. -/
def newLine (level : Nat) : String :=
  "\n" ++ String.ofList (List.replicate (2 * level) ' ')

mutual

/-- The text of a value over several lines, whose first line is already indented to `level`. -/
def pretty (level : Nat) : Value → String
  | .null => "null"
  | .boolean b => if b then "true" else "false"
  | .number n => numberText n
  | .string text => stringText text
  | .list [] => "[]"
  | .list (item :: rest) =>
    "[" ++ prettyItems (level + 1) (item :: rest) ++ newLine level ++ "]"
  | .object [] => "\x7b\x7d"
  | .object (member :: rest) =>
    "\x7b" ++ prettyMembers (level + 1) (member :: rest) ++ newLine level ++ "\x7d"

/-- The items of a list, each on lines of its own. -/
def prettyItems (level : Nat) : List Value → String
  | [] => ""
  | [item] => newLine level ++ pretty level item
  | item :: next :: rest =>
    newLine level ++ pretty level item ++ "," ++ prettyItems level (next :: rest)

/-- The members of an object, each on lines of its own. -/
def prettyMembers (level : Nat) : List (String × Value) → String
  | [] => ""
  | [(name, value)] => newLine level ++ stringText name ++ ": " ++ pretty level value
  | (name, value) :: next :: rest =>
    newLine level ++ stringText name ++ ": " ++ pretty level value ++ "," ++
      prettyMembers level (next :: rest)

end

end TokenTariff.Json
