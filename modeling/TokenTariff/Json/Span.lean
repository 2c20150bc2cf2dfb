import TokenTariff.Json.ValueReader
/-!
# Where a JSON value ends

A machine that goes through a value byte by byte and finds its end, without building it. It keeps
the composites that are still open, so values may be nested to any depth; numbers may have any
size and escapes may name single surrogates, since nothing is computed from them.

* `span` splits a byte list into the value at its front and the rest;
* `takeRaw` reads a value as the text it is;
* `skipMember` passes over what follows a name.
-/

namespace TokenTariff.Json
set_option autoImplicit false

/-- How much of a number has been read. -/
inductive NumberPart where
  | minus
  | zero
  | whole
  | point
  | fraction
  | exponentMark
  | exponentSign
  | exponent

/-- Where the machine stands inside a string. -/
inductive SkippedString where
  | plain
  | escape
  | digits (seen : Bytes)

inductive Place where
  | value
  | opened
  | name
  | colon
  | string (isName : Bool) (inside : SkippedString)
  | word (letters : Bytes)
  | number (part : NumberPart)
  | after

/-! ## Numbers and strings -/

def NumberPart.isComplete : NumberPart → Bool
  | zero | whole | fraction | exponent => true
  | minus | point | exponentMark | exponentSign => false

/-- What a byte that follows the digits before the point leads to, if it belongs to the number. -/
def NumberPart.afterWhole? (b : UInt8) : Option NumberPart :=
  if b = Json.point then some point else if isExponentMark b then some exponentMark else none

/-- What the next byte leads to; `none` if the number may not go on with it. -/
def NumberPart.next? : NumberPart → UInt8 → Option NumberPart
  | minus, b => if b = 0x30 then some zero else if isDigit b then some whole else none
  | zero, b => afterWhole? b
  | whole, b => if isDigit b then some whole else afterWhole? b
  | point, b => if isDigit b then some fraction else none
  | fraction, b =>
    if isDigit b then some fraction else if isExponentMark b then some exponentMark else none
  | exponentMark, b =>
    if b = plusSign || b = minusSign then some exponentSign
    else if isDigit b then some exponent
    else none
  | exponentSign, b => if isDigit b then some exponent else none
  | exponent, b => if isDigit b then some exponent else none

/-- Whether the number ends before the byte `b`. -/
def NumberPart.endsBefore (part : NumberPart) (b : UInt8) : Bool :=
  part.isComplete && (part.next? b).isNone && !isDigit b

/-- What the next byte of a string leads to; `none` is the end of the string. -/
def SkippedString.step : SkippedString → UInt8 → Except Error (Option SkippedString)
  | plain, b =>
    if b = quoteMark then .ok none
    else if b = backslash then .ok (some escape)
    else if b < 0x20 then .error .controlCharacter
    else .ok (some plain)
  | escape, b =>
    if (simpleEscape? b).isSome then .ok (some plain)
    else if b = letterU then .ok (some (digits []))
    else .error .badEscape
  | digits seen, b =>
    let seen := seen ++ [b]
    if seen.length < 4 then .ok (some (digits seen))
    else if (hexNumber? seen).isSome then .ok (some plain)
    else .error .badEscape

/-! ## Steps -/

/-- Where a value begins with the byte `b`. -/
def Place.begin (stack : List Composite) (b : UInt8) : Except Error (Place × List Composite) :=
  if isBlank b then .ok (.value, stack)
  else
    match word? b, Composite.opened? b with
    | some (letters, _), _ => .ok (.word letters, stack)
    | none, some kind => .ok (.opened, kind :: stack)
    | none, none =>
      if b = quoteMark then .ok (.string false .plain, stack)
      else if b = minusSign then .ok (.number .minus, stack)
      else if b = 0x30 then .ok (.number .zero, stack)
      else if isDigit b then .ok (.number .whole, stack)
      else .error .missingValue

/-- What a byte between a value and the next part of a composite leads to. -/
def Place.separate (stack : List Composite) (b : UInt8) : Except Error (Place × List Composite) :=
  match stack with
  | [] => .ok (.after, [])
  | kind :: outer =>
    if isBlank b then .ok (.after, stack)
    else if b = comma then
      .ok (match kind with | .list => .value | .object => .name, stack)
    else if b = kind.closing then .ok (.after, outer)
    else .error kind.separatorError

def Place.step (stack : List Composite) (b : UInt8) : Place → Except Error (Place × List Composite)
  | value => begin stack b
  | opened =>
    match stack with
    | .list :: outer => 
      if isBlank b then .ok (.opened, stack)
      else if b = closeList then .ok (.after, outer)
      else begin stack b
    | .object :: outer =>
      if isBlank b then .ok (.opened, stack)
      else if b = closeObject then .ok (.after, outer)
      else if b = quoteMark then .ok (.string true .plain, stack)
      else .error .nameNotString
    | [] => begin stack b
  | name =>
    if isBlank b then .ok (.name, stack)
    else if b = quoteMark then .ok (.string true .plain, stack)
    else .error .nameNotString
  | colon =>
    if isBlank b then .ok (.colon, stack)
    else if b = Json.colon then .ok (.value, stack)
    else .error .missingColon
  | string isName inside => do
    match ← inside.step b with
    | some inside => .ok (.string isName inside, stack)
    | none => .ok (if isName then .colon else .after, stack)
  | word letters =>
    match letters with
    | [] => separate stack b
    | letter :: letters =>
      if b = letter then .ok (if letters.isEmpty then .after else .word letters, stack)
      else .error .unknownWord
  | number part =>
    match part.next? b with
    | some part => .ok (.number part, stack)
    | none => if part.endsBefore b then separate stack b else .error .badNumber
  | after => separate stack b

/-- Whether a value outside of all composites ends before the byte `b`. -/
def Place.endsBefore (stack : List Composite) (b : UInt8) : Place → Bool
  | number part => stack.isEmpty && part.endsBefore b
  | after => stack.isEmpty
  | _ => false

/-- What is wrong with a text that ends here; `none` if a value outside of all composites may. -/
def Place.endError? (stack : List Composite) : Place → Option Error
  | value => some .endInValue
  | opened => some (stack.head?.elim .endInValue Composite.endError)
  | name => some .endInObject
  | colon => some .endInObject
  | string _ _ => some .endInString
  | word _ => some .endInValue
  | number part =>
    if part.isComplete then stack.head?.map Composite.endError else some .badNumber
  | after => stack.head?.map Composite.endError

/-! ## Values as text -/

/-- Goes on to the end of the value that is being read. -/
def spanFrom : Place → List Composite → Reader Bytes
  | place, stack, [] =>
    match place.endError? stack with
    | some e => .error e
    | none => .ok ([], [])
  | place, stack, b :: rest =>
    if place.endsBefore stack b then .ok ([], b :: rest)
    else
      match place.step stack b with
      | .error e => .error e
      | .ok (place, stack) => (spanFrom place stack rest).map fun (text, rest) => (b :: text, rest)

/-- Splits a byte list into the value at its front, with the blanks before it, and the rest. -/
def span : Reader Bytes :=
  spanFrom .value []

/-- Reads a value as its text, which has to be UTF-8. -/
def takeRaw : Reader Bytes := fun bytes => do
  let (text, rest) ← span (skipBlanks bytes)
  if (Bytes.text? text).isSome then .ok (text, rest) else .error .badUtf8

/-- Passes over a colon and a value. -/
def skipMember {σ : Type} (state : σ) : Reader σ := fun bytes => do
  let rest ← takeColon bytes
  let (_, rest) ← span rest
  .ok (state, rest)

end TokenTariff.Json
