import TokenTariff.Toml.Reader
/-!
# Reading TOML strings

A string stands between double quotes, with escapes, or between single quotes, without. Between
three quotes of either kind it may go over several lines; a line end that follows the opening
quotes is not part of it, and every other stands in it as it is written.

* `shortString` reads a string of one line;
* `string` reads any string.
-/

namespace TokenTariff.Toml
set_option autoImplicit false

/-- Takes the character whose code has exactly `count` digits. -/
def codePoint (count : Nat) : Reader Char := fun text =>
  let digits := text.take count
  let code := naturalOf 16 digits
  if h : code.isValidChar then
    if digits.length = count && digits.all isHexDigit then
      some (Char.ofNatAux code h, text.drop count)
    else none
  else none

/-- The characters that are escaped by a letter of their own. -/
def escapes : List (Char × Char) :=
  [('b', '\x08'), ('t', '\t'), ('n', '\n'), ('f', '\x0C'), ('r', '\r'), ('e', '\x1B'), ('"', '"'),
    ('\\', '\\')]

/-- The letters that announce a code, each with the number of its digits. -/
def codeLengths : List (Char × Nat) :=
  [('x', 2), ('u', 4), ('U', 8)]

/-- Takes an escape after its backslash. -/
def escape : Reader Char
  | [] => none
  | c :: rest =>
    match escapes.lookup c, codeLengths.lookup c with
    | some char, _ => some (char, rest)
    | none, some count => codePoint count rest
    | none, none => none

/-! ## Strings of one line -/

/-- Takes a string to its closing quote; `before` holds in reverse what was taken already. -/
def shortFrom (mark : Char) : (fuel : Nat) → (before : List Char) → Reader String
  | 0, _, _ => none
  | _, _, [] => none
  | fuel + 1, before, c :: rest =>
    if c = mark then some (String.ofList before.reverse, rest)
    else if c = '\\' ∧ mark = '"' then do
      let (char, rest) ← escape rest
      shortFrom mark fuel (char :: before) rest
    else if isPlain c then shortFrom mark fuel (c :: before) rest
    else none

def shortString : Reader String
  | [] => none
  | mark :: rest =>
    if mark = '"' ∨ mark = '\'' then shortFrom mark (rest.length + 1) [] rest else none

/-! ## Strings of several lines -/

/-- The text after the blanks and line ends that begin it. -/
def skipSpace : List Char → List Char
  | [] => []
  | '\r' :: '\n' :: rest => skipSpace rest
  | c :: rest => if isBlank c || c == '\n' then skipSpace rest else c :: rest

/-- What follows a backslash that stands at the end of a line: the text from its next visible
character on. -/
def joinLines? (text : List Char) : Option (List Char) :=
  (takeLineEnd? (skipBlanks text)).map skipSpace

/-- Takes a string to its three closing quotes, before which up to two of its own may stand. -/
def longFrom (mark : Char) : (fuel : Nat) → (before : List Char) → Reader String
  | 0, _, _ => none
  | _, _, [] => none
  | fuel + 1, before, c :: rest =>
    if c = mark then
      let marks := (rest.takeWhile (· == mark)).length + 1
      if marks < 3 then longFrom mark fuel (c :: before) rest
      else
        let own := min (marks - 3) 2
        some (String.ofList (before.reverse ++ List.replicate own mark), rest.drop (own + 2))
    else if c = '\\' ∧ mark = '"' then
      match joinLines? rest with
      | some rest => longFrom mark fuel before rest
      | none => do
        let (char, rest) ← escape rest
        longFrom mark fuel (char :: before) rest
    else if isPlain c ∨ (takeLineEnd? (c :: rest)).isSome then longFrom mark fuel (c :: before) rest
    else none

/-- Takes a string after its three opening quotes. -/
def longString (mark : Char) : Reader String := fun text =>
  longFrom mark (text.length + 1) [] ((takeLineEnd? text).getD text)

def string : Reader String
  | '"' :: '"' :: '"' :: rest => longString '"' rest
  | '\'' :: '\'' :: '\'' :: rest => longString '\'' rest
  | text => shortString text

end TokenTariff.Toml
