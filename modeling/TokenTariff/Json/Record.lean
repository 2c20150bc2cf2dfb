import TokenTariff.Json.Span
/-!
# Reading JSON records

A record has named fields in a fixed order. It is written as an object, whose members may come in
any order and may include others, which are passed over; or as a list of the fields in their order.

A `Field` tells how one field is read into the state that collects them; `Layout.read` reads either
form. What becomes of fields that are not there is up to the layout: if all are required, the first
one missing is an error.
-/

namespace TokenTariff.Json
set_option autoImplicit false

/-- One field: its name, whether the state has it already, and how it is read. -/
structure Field (σ : Type) where
  name : String
  isRead : σ → Bool
  read : σ → Reader σ

/-- A field whose value `take` reads and `put` stores where `get` finds it. -/
def Field.of {σ α : Type} (name : String) (get : σ → Option α) (put : σ → α → σ)
    (take : Reader α) : Field σ where
  name := name
  isRead state := (get state).isSome
  read state bytes := (take bytes).map fun (found, rest) => (put state found, rest)

/-- The fields of a record in their order. -/
structure Layout (σ : Type) where
  /-- The name of the record in messages. -/
  name : String
  fields : List (Field σ)
  allRequired : Bool

namespace Layout
variable {σ : Type}

/-- What a message calls the record. -/
def wanted (layout : Layout σ) : String :=
  "struct " ++ layout.name

/-- Reads what follows the name of a member. -/
def takeField (layout : Layout σ) (state : σ) (name : String) : Reader σ := fun bytes =>
  match layout.fields.find? (·.name == name) with
  | none => skipMember state bytes
  | some field =>
    if field.isRead state then .error (.repeatedField name)
    else do
      let rest ← takeColon bytes
      field.read state rest

/-- Refuses a state in which a required field is missing. -/
def checkMembers (layout : Layout σ) (state : σ) : Except Error Unit :=
  match layout.fields.find? fun field => !field.isRead state with
  | some field => if layout.allRequired then .error (.missingField field.name) else .ok ()
  | none => .ok ()

/-- Reads the record as an object after its opening brace. -/
def readMembers (layout : Layout σ) (start : σ) : Reader σ := fun bytes => do
  let (state, rest) ← readObject layout.takeField start bytes
  layout.checkMembers state
  .ok (state, rest)

/-- The error for a list of `length` items that ends too early. -/
def shortError (layout : Layout σ) (length : Nat) : Error :=
  .wrongLength length
    (layout.wanted ++ " with " ++ toString layout.fields.length ++ " elements")

/-- Reads the end of a list after all fields. -/
def closePositions (state : σ) : Reader σ := fun bytes =>
  match skipBlanks bytes with
  | [] => .error .endInList
  | b :: rest =>
    if b = closeList then .ok (state, rest)
    else if b = comma then
      match skipBlanks rest with
      | c :: _ => .error (if c = closeList then .trailingComma else .trailingText)
      | [] => .error .trailingText
    else .error .trailingText

/-- Reads the fields that are left in a list, of which `count` have been read. -/
def readPositions (layout : Layout σ) : List (Field σ) → (count : Nat) → σ → Reader σ
  | [], _, state, bytes => closePositions state bytes
  | field :: fields, count, state, bytes =>
    match skipBlanks bytes with
    | [] => .error .endInList
    | b :: rest =>
      if b = closeList then
        if layout.allRequired then .error (layout.shortError count) else .ok (state, rest)
      else if count = 0 then do
        let (state, rest) ← field.read state (b :: rest)
        readPositions layout fields (count + 1) state rest
      else if b = comma then
        match skipBlanks rest with
        | [] => .error .endInValue
        | c :: rest =>
          if c = closeList then .error .trailingComma
          else do
            let (state, rest) ← field.read state (c :: rest)
            readPositions layout fields (count + 1) state rest
      else .error .missingListSeparator

/-- Reads the record in either form. -/
def read (layout : Layout σ) (start : σ) : Reader σ := fun bytes =>
  match skipBlanks bytes with
  | [] => .error .endInValue
  | b :: rest =>
    if b = openObject then layout.readMembers start rest
    else if b = openList then layout.readPositions layout.fields 0 start rest
    else refuse layout.wanted (b :: rest)

end Layout

/-- Reads what `take` reads, or `null`. -/
def orNull {α : Type} (take : Reader α) : Reader (Option α) := fun bytes =>
  match skipBlanks bytes with
  | [] => .error .endInValue
  | b :: rest =>
    if b = 0x6E then (takeLetters [0x75, 0x6C, 0x6C] rest).map (none, ·)
    else (take (b :: rest)).map fun (found, rest) => (some found, rest)

end TokenTariff.Json
