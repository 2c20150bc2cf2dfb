import TokenTariff.Text.Utf8
/-!
# JSON values

A JSON value as it stands in a document: the members of an object keep their order and their
repetitions. What a repeated name means is for the reader of the object to say;
`Value.member?` lets the last one count.
-/

namespace TokenTariff.Json
set_option autoImplicit false

/-- A number: whole numbers of up to 64 bits are exact, all others are doubles. -/
inductive Number where
  | integer (n : Int)
  | double (x : Float)

/-- The double nearest to a number. -/
def Number.toFloat : Number → Float
  | integer n => Float.ofInt n
  | double x => x

inductive Value where
  | null
  | boolean (b : Bool)
  | number (n : Number)
  | string (text : String)
  | list (items : List Value)
  | object (members : List (String × Value))

namespace Value

def members? : Value → Option (List (String × Value))
  | object members => some members
  | _ => none

/-- The last member of an object with the given name. -/
def member? (value : Value) (name : String) : Option Value :=
  value.members?.bind (·.reverse.lookup name)

def float? : Value → Option Float
  | number n => some n.toFloat
  | _ => none

end Value

end TokenTariff.Json
