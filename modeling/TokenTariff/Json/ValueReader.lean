import TokenTariff.Json.NumberReader
import TokenTariff.Json.StringReader
/-!
# Reading JSON values

A value is a word, a number, a string, a list or an object. How a list or an object is read is a
parameter of `scalarOr`, so that one definition serves values of any depth, single scalars, and the
messages about a value of the wrong type.

An object whose first name is `embeddingName` is none: it stands for the document whose text is the
string in its only member. How such a text is read is a parameter of `value`, since it may hold
others again.

* `readItems` and `readMembers` go through a list and an object and pass each part on;
* `scalar` reads a value that has to be neither a list nor an object;
* `value` reads values that are nested no deeper than it is told;
* `embeddedDocument` reads the text of an embedded document.
-/

namespace TokenTariff.Json
set_option autoImplicit false

/-! ## Lists and objects -/

/-- The two ways to put values together. -/
inductive Composite where
  | list
  | object

namespace Composite

/-- The composite that an opening byte begins. -/
def opened? (b : UInt8) : Option Composite :=
  if b = openList then some list else if b = openObject then some object else none

def closing : Composite → UInt8
  | list => closeList
  | object => closeObject

/-- What is wrong with a text that ends inside of a composite. -/
def endError : Composite → Error
  | list => .endInList
  | object => .endInObject

/-- What is wrong with a byte that neither ends a composite nor separates its parts. -/
def separatorError : Composite → Error
  | list => .missingListSeparator
  | object => .missingObjectSeparator

end Composite

/-- Reads what follows a part of a composite: its end, or a comma and what `more` reads of the next
byte and of those behind it. -/
def afterPart {σ : Type} (kind : Composite) (state : σ) (more : UInt8 → Reader σ) : Reader σ :=
  fun bytes =>
    match skipBlanks bytes with
    | [] => .error kind.endError
    | b :: rest =>
      if b = kind.closing then .ok (state, rest)
      else if b = comma then
        match skipBlanks rest with
        | [] => .error .endInValue
        | c :: rest => more c rest
      else .error kind.separatorError

/-- Reads the items of a list up to its end, the first of them being next; `take` reads one. -/
def readItems {σ : Type} (take : σ → Reader σ) : (fuel : Nat) → σ → Reader σ
  | 0, _, _ => .error .endInList
  | fuel + 1, state, bytes => do
    let (state, rest) ← take state bytes
    let more (c : UInt8) (rest : Bytes) :=
      if c = closeList then .error .trailingComma else readItems take fuel state (c :: rest)
    afterPart .list state more rest

def readList {σ : Type} (take : σ → Reader σ) (start : σ) : Reader σ := fun bytes =>
  match skipBlanks bytes with
  | [] => .error .endInList
  | b :: rest =>
    if b = closeList then .ok (start, rest) else readItems take bytes.length start (b :: rest)

/-- Reads the members of an object up to its end, after the quote that opens the first name; `take`
reads what follows a name. -/
def readMembers {σ : Type} (take : σ → String → Reader σ) : (fuel : Nat) → σ → Reader σ
  | 0, _, _ => .error .endInObject
  | fuel + 1, state, bytes => do
    let (name, rest) ← stringBody bytes
    let (state, rest) ← take state name rest
    let more (c : UInt8) (rest : Bytes) :=
      if c = quoteMark then readMembers take fuel state rest
      else if c = closeObject then .error .trailingComma
      else .error .nameNotString
    afterPart .object state more rest

def readObject {σ : Type} (take : σ → String → Reader σ) (start : σ) : Reader σ := fun bytes =>
  match skipBlanks bytes with
  | [] => .error .endInObject
  | b :: rest =>
    if b = closeObject then .ok (start, rest)
    else if b = quoteMark then readMembers take bytes.length start rest
    else .error .nameNotString

/-! ## Scalars -/

/-- Reads a scalar, or else what `composite` reads after an opening byte. -/
def scalarOr (composite : Composite → Reader Value) : Reader Value := fun bytes =>
  match skipBlanks bytes with
  | [] => .error .endInValue
  | b :: rest =>
    match word? b, Composite.opened? b with
    | some (letters, value), _ => (takeLetters letters rest).map (value, ·)
    | none, some kind => composite kind rest
    | none, none =>
      if b = quoteMark then (stringBody rest).map fun (text, rest) => (.string text, rest)
      else if b = minusSign || isDigit b then
        (number (b :: rest)).map fun (n, rest) => (.number n, rest)
      else .error .missingValue

/-- What a value is, in the words of a message. -/
def Found.ofValue : Value → Found
  | .null => .null
  | .boolean b => .boolean b
  | .number (.integer n) => .integer n
  | .number (.double x) => .double x
  | .string text => .string text
  | .list _ => .list
  | .object _ => .object

/-- Reads a scalar; of a list or an object the opening byte is enough to refuse it. -/
def scalar (wanted : String) : Reader Value :=
  scalarOr fun kind _ => .error (.wrongType (match kind with | .list => .list | .object => .object) wanted)

/-- Refuses the next value, or says what is wrong inside of it if it is a scalar. -/
def refuse {α : Type} (wanted : String) : Reader α := fun bytes => do
  let (value, _) ← scalar wanted bytes
  .error (.wrongType (Found.ofValue value) wanted)

def boolean : Reader Bool := fun bytes => do
  match ← scalar "a boolean" bytes with
  | (.boolean b, rest) => .ok (b, rest)
  | (other, _) => .error (.wrongType (Found.ofValue other) "a boolean")

/-- Reads a whole number of the signed 64-bit range. -/
def integer : Reader Int := fun bytes => do
  match ← scalar "i64" bytes with
  | (.number (.integer n), rest) =>
    if n < 0x8000000000000000 then .ok (n, rest) else .error (.outOfRange n "i64")
  | (other, _) => .error (.wrongType (Found.ofValue other) "i64")

/-- Reads a number as the double nearest to it. -/
def double : Reader Float := fun bytes => do
  match ← scalar "f64" bytes with
  | (.number n, rest) => .ok (n.toFloat, rest)
  | (other, _) => .error (.wrongType (Found.ofValue other) "f64")

/-! ## Embedded documents -/

/-- The first name of an object that stands for the document in its only member. -/
def embeddingName : String := "$serde_json::private::RawValue"

/-- What follows the first name of an object if a document is embedded in it, after its opening
brace. -/
def embedding? (bytes : Bytes) : Option Bytes :=
  match skipBlanks bytes with
  | [] => none
  | b :: rest =>
    if b = quoteMark then
      match stringBody rest with
      | .ok (name, rest) => if name = embeddingName then some rest else none
      | .error _ => none
    else none

/-- Reads the text of an embedded document. -/
def embeddedText : Reader String := fun bytes => do
  match ← scalar "raw value" bytes with
  | (.string text, rest) => .ok (text, rest)
  | (other, _) => .error (.wrongType (Found.ofValue other) "raw value")

/-- Reads the end of an object after its only member. -/
def closeMember (value : Value) : Reader Value := fun bytes =>
  match skipBlanks bytes with
  | [] => .error .endInObject
  | b :: rest =>
    if b = closeObject then .ok (value, rest)
    else .error (if b = comma then .trailingComma else .trailingText)

/-- Reads what follows the name of an embedded document; `document` reads its text. -/
def embedded (document : String → Except Error Value) : Reader Value := fun bytes => do
  let rest ← takeColon bytes
  let (text, rest) ← embeddedText rest
  let value ← document text
  closeMember value rest

/-! ## Values -/

/-- Reads an item of a list onto the items before it, which stand in reverse. -/
def takeItem (read : Reader Value) (items : List Value) : Reader (List Value) := fun bytes =>
  (read bytes).map fun (item, rest) => (item :: items, rest)

/-- Reads a member of an object onto the members before it, which stand in reverse. -/
def takeMember (read : Reader Value) (members : List (String × Value)) (name : String) :
    Reader (List (String × Value)) := fun bytes => do
  let rest ← takeColon bytes
  let (value, rest) ← read rest
  .ok ((name, value) :: members, rest)

/-- Reads a list or an object whose parts `read` reads, or the value that an object stands for. -/
def compositeOf (document : String → Except Error Value) (read : Reader Value) :
    Composite → Reader Value
  | .list => fun bytes =>
    (readList (takeItem read) [] bytes).map fun (items, rest) => (.list items.reverse, rest)
  | .object => fun bytes =>
    match embedding? bytes with
    | some rest => embedded document rest
    | none =>
      (readObject (takeMember read) [] bytes).map fun (members, rest) =>
        (.object members.reverse, rest)

/-- Reads a value with lists and objects nested at most `depth` deep; `document` reads the texts of
the documents that are embedded in it. -/
def value (document : String → Except Error Value) : (depth : Nat) → Reader Value
  | 0 => scalarOr fun _ _ => .error .tooDeep
  | depth + 1 => scalarOr (compositeOf document (value document depth))

/-- How deep an embedded document may be nested, wherever it stands. -/
def documentDepth : Nat := 127

/-- Reads the text of an embedded document that has fewer than `levels` others inside each other.
Each of them is shorter than the one around it, so its length is enough for this number. -/
def embeddedDocument : (levels : Nat) → String → Except Error Value
  | 0, _ => .error .endInValue
  | levels + 1, text =>
    whole (value (embeddedDocument levels) documentDepth) (Bytes.ofText text)

/-- How deep the members of the outermost object may be nested. -/
def memberDepth : Nat := 126

/-- Reads the members of an object whose values are nested no deeper than `memberDepth`. -/
def objectMembers : Reader (List (String × Value)) := fun bytes =>
  match skipBlanks bytes with
  | [] => .error .endInValue
  | b :: rest =>
    if b = openObject then
      let member := value (embeddedDocument rest.length) memberDepth
      (readObject (takeMember member) [] rest).map fun (members, rest) => (members.reverse, rest)
    else refuse "a map" (b :: rest)

end TokenTariff.Json
