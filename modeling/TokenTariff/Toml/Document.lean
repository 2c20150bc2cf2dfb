import TokenTariff.Toml.Scalar
import TokenTariff.Toml.StringReader
import TokenTariff.Toml.Value
/-!
# Reading TOML documents

A document is a list of assignments and then a list of sections, each with a header and assignments
of its own.

* `value` reads a value that is nested no deeper than it is told;
* `read?` reads a document and gives its members.
-/

namespace TokenTariff.Toml
set_option autoImplicit false

/-! ## Keys -/

/-- The characters of a name without quotes. -/
def isNameChar (c : Char) : Bool :=
  c.isAlphanum || c == '_' || c == '-'

/-- Takes a name, with or without quotes. -/
def name : Reader String := fun text =>
  match text.takeWhile isNameChar with
  | [] => shortString text
  | chars => some (String.ofList chars, text.drop chars.length)

/-- How deep the values of a document may be nested, and how many names a key may have. -/
def maxDepth : Nat := 80

/-- Takes a key of at most `count` names: those before the last one, and the last one. -/
def keyOf : (count : Nat) → Reader (List String × String)
  | 0, _ => none
  | count + 1, text => do
    let (first, rest) ← name (skipBlanks text)
    match skipBlanks rest with
    | '.' :: rest => do
      let ((path, last), rest) ← keyOf count rest
      some ((first :: path, last), rest)
    | rest => some (([], first), rest)

/-- Takes a key and the blanks around it. -/
def key : Reader (List String × String) :=
  keyOf maxDepth

/-- Takes a key, an equals sign, and the value that `read` reads; `skip` gives the text after what
may stand on either side of the sign. -/
def assignment (skip : List Char → List Char) (read : Reader Value) :
    Reader ((List String × String) × Value) := fun text => do
  let (key, rest) ← key text
  let rest ← takeChar '=' (skip rest)
  let (value, rest) ← read (skip rest)
  some ((key, value), rest)

/-! ## Values -/

/-- Takes the rest of a list of parts up to its closing bracket; a comma may follow the last part.
`before` holds in reverse what was taken already. -/
def partsFrom {α : Type} (close : Char) (read : Reader α) :
    (fuel : Nat) → (before : List α) → Reader (List α)
  | 0, _, _ => none
  | fuel + 1, before, text =>
    match skipLines text with
    | [] => none
    | c :: rest =>
      if c = close then some (before.reverse, rest)
      else do
        let (part, rest) ← read (c :: rest)
        match skipLines rest with
        | ',' :: rest => partsFrom close read fuel (part :: before) rest
        | rest => (takeChar close rest).map fun rest => ((part :: before).reverse, rest)

/-- Takes a list of parts after its opening bracket. -/
def parts {α : Type} (close : Char) (read : Reader α) : Reader (List α) := fun text =>
  partsFrom close read (text.length + 1) [] text

def isWordChar (c : Char) : Bool :=
  isNameChar c || c == '+' || c == '.' || c == ':'

/-- Takes a word; a date and a time of day that one blank divides are one word. -/
def word : Reader (List Char) := fun text =>
  let first := text.takeWhile isWordChar
  let rest := text.drop first.length
  match takeDate first, rest with
  | some [], ' ' :: c :: rest =>
    if isDigit c then
      let second := (c :: rest).takeWhile isWordChar
      some (first ++ ' ' :: second, (c :: rest).drop second.length)
    else some (first, ' ' :: c :: rest)
  | _, rest => some (first, rest)

/-- The value that a word writes. -/
def scalar? (word : List Char) : Option Value :=
  if word = ['t', 'r', 'u', 'e'] then some (.boolean true)
  else if word = ['f', 'a', 'l', 's', 'e'] then some (.boolean false)
  else
    match wholeNumber? word with
    | some _ => (integer? word).map .integer
    | none => if isFloat word then some .float else if isTime word then some .time else none

/-- Takes a list after its bracket, or a table after its brace, whose values `read` reads. -/
def compositeOf (read : Reader Value) (isList : Bool) : Reader Value := fun text =>
  if isList then (parts ']' read text).map fun (items, rest) => (.list items, rest)
  else do
    let (assignments, rest) ← parts '}' (assignment skipLines read) text
    let members ← Members.assignAll assignments []
    some (.table .inline members, rest)

/-- Takes a string or a word, or else what `composite` reads after a bracket or a brace. -/
def scalarOr (composite : Bool → Reader Value) : Reader Value
  | [] => none
  | c :: rest =>
    if c = '[' then composite true rest
    else if c = '\x7b' then composite false rest
    else if c = '"' ∨ c = '\'' then
      (string (c :: rest)).map fun (content, rest) => (.text content, rest)
    else do
      let (word, rest) ← word (c :: rest)
      (scalar? word).map (·, rest)

/-- Takes a value with lists and tables nested at most `depth` deep. -/
def value : (depth : Nat) → Reader Value
  | 0 => scalarOr fun _ _ => none
  | depth + 1 => scalarOr (compositeOf (value depth))

/-! ## Documents -/

/-- Takes assignments, each on lines of its own, up to the next header or the end. -/
def assignmentsFrom : (fuel : Nat) → Reader (List ((List String × String) × Value))
  | 0, _ => none
  | fuel + 1, text =>
    match skipLines text with
    | [] => some ([], [])
    | '[' :: rest => some ([], '[' :: rest)
    | text => do
      let (first, rest) ← assignment skipBlanks (value maxDepth) text
      let rest ← endLine rest
      let (others, rest) ← assignmentsFrom fuel rest
      some (first :: others, rest)

def assignments : Reader (List ((List String × String) × Value)) := fun text =>
  assignmentsFrom (text.length + 1) text

/-- Adds a section, which begins after the first bracket of its header. -/
def takeSection (members : Members) : Reader Members
  | '[' :: text => do
    let ((path, name), text) ← key text
    let text ← takeChar ']' text
    let text ← takeChar ']' text
    let text ← endLine text
    let (assignments, text) ← assignments text
    let members ← members.within (Members.addToTables name assignments) path
    some (members, text)
  | text => do
    let ((path, name), text) ← key text
    let text ← takeChar ']' text
    let text ← endLine text
    let (assignments, text) ← assignments text
    let members ← members.within (Members.addTable name assignments) path
    some (members, text)

/-- Adds the sections of a text that begins with a header or is empty. -/
def sectionsFrom : (fuel : Nat) → Members → List Char → Option Members
  | 0, _, _ => none
  | _, members, [] => some members
  | fuel + 1, members, c :: text => do
    let text ← takeChar '[' (c :: text)
    let (members, text) ← takeSection members text
    sectionsFrom fuel members text

/-- The members of the outermost table of a document. A byte order mark before it means nothing. -/
def read? (text : String) : Option Members := do
  let text := if text.toList.head? = some '\ufeff' then text.toList.tail else text.toList
  let (first, rest) ← assignments text
  let members ← Members.assignAll first []
  sectionsFrom (rest.length + 1) members rest

end TokenTariff.Toml
