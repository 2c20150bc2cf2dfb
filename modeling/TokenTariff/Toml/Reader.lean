import TokenTariff.Text.Utf8
/-!
# Reading TOML: blanks, lines, comments

A reader takes what it wants from the front of a text and gives the rest, or refuses the text.
-/

namespace TokenTariff.Toml
set_option autoImplicit false

abbrev Reader (α : Type) : Type := List Char → Option (α × List Char)

/-- The characters that may stand between the words of a line. -/
def isBlank (c : Char) : Bool :=
  c == ' ' || c == '\t'

/-- The characters that may stand in comments and in strings of one line. -/
def isPlain (c : Char) : Bool :=
  c == '\t' || (' ' ≤ c && c != '\x7F')

def isDigit (c : Char) : Bool :=
  '0' ≤ c && c ≤ '9'

def digitValue (c : Char) : Nat :=
  if isDigit c then c.toNat - '0'.toNat
  else if 'a' ≤ c then c.toNat - 'a'.toNat + 10
  else c.toNat - 'A'.toNat + 10

def isHexDigit (c : Char) : Bool :=
  isDigit c || ('a' ≤ c && c ≤ 'f') || ('A' ≤ c && c ≤ 'F')

/-- The number that digits of a base make. -/
def naturalOf (base : Nat) (digits : List Char) : Nat :=
  digits.foldl (fun n c => n * base + digitValue c) 0

def takeChar (wanted : Char) : List Char → Option (List Char)
  | c :: rest => if c = wanted then some rest else none
  | [] => none

/-- The text after the blanks. -/
def skipBlanks (text : List Char) : List Char :=
  text.dropWhile isBlank

/-- Takes a line end from the front. -/
def takeLineEnd? : List Char → Option (List Char)
  | '\n' :: rest => some rest
  | '\r' :: '\n' :: rest => some rest
  | _ => none

/-- The text after the blanks and the comment that begin it. A comment with a character that has no
place in it is cut short before that, where no line can end. -/
def skipComment (text : List Char) : List Char :=
  match skipBlanks text with
  | '#' :: rest => rest.dropWhile isPlain
  | rest => rest

/-- Takes the rest of a line, which holds nothing but a comment. -/
def endLine (text : List Char) : Option (List Char) :=
  match skipComment text with
  | [] => some []
  | rest => takeLineEnd? rest

/-- The text after at most `fuel` empty lines and what may begin another. -/
def skipLinesFrom : (fuel : Nat) → List Char → List Char
  | 0, text => text
  | fuel + 1, text =>
    match takeLineEnd? (skipComment text) with
    | some rest => skipLinesFrom fuel rest
    | none => skipComment text

/-- The text after the blanks, comments and line ends that begin it. -/
def skipLines (text : List Char) : List Char :=
  skipLinesFrom (text.length + 1) text

end TokenTariff.Toml
