import TokenTariff.Json.FloatText
import TokenTariff.Text.Quoted
/-!
# What is wrong with a JSON text

The causes for which a JSON text is refused, each met at the first place where it shows when the
text is read from left to right, and the sentence that `Error.message` has for each of them.
-/

namespace TokenTariff.Json
set_option autoImplicit false

/-- What stands in the text where something else is wanted. -/
inductive Found where
  | null
  | boolean (b : Bool)
  | integer (n : Int)
  | double (x : Float)
  | string (text : String)
  | list
  | object

inductive Error where
  | endInValue
  | endInObject
  | endInList
  | endInString
  | missingColon
  | missingListSeparator
  | missingObjectSeparator
  | unknownWord
  | missingValue
  | badEscape
  | badNumber
  | numberTooLarge
  | badUtf8
  | controlCharacter
  | nameNotString
  | trailingComma
  | trailingText
  | unpairedSurrogate
  | missingSurrogate
  | tooDeep
  | wrongType (found : Found) (wanted : String)
  | outOfRange (n : Int) (wanted : String)
  | missingField (name : String)
  | repeatedField (name : String)
  | wrongLength (length : Nat) (wanted : String)

def Found.description : Found → String
  | null => "null"
  | boolean b => "boolean `" ++ (if b then "true" else "false") ++ "`"
  | integer n => "integer `" ++ toString n ++ "`"
  | double x => "floating point `" ++ (floatText? x).getD "null" ++ "`"
  | string text => "string " ++ Text.quoted text
  | list => "sequence"
  | object => "map"

def Error.message : Error → String
  | endInValue => "EOF while parsing a value"
  | endInObject => "EOF while parsing an object"
  | endInList => "EOF while parsing a list"
  | endInString => "EOF while parsing a string"
  | missingColon => "expected `:`"
  | missingListSeparator => "expected `,` or `]`"
  | missingObjectSeparator => "expected `,` or `\x7d`"
  | unknownWord => "expected ident"
  | missingValue => "expected value"
  | badEscape => "invalid escape"
  | badNumber => "invalid number"
  | numberTooLarge => "number out of range"
  | badUtf8 => "invalid unicode code point"
  | controlCharacter => "control character (\\u0000-\\u001F) found while parsing a string"
  | nameNotString => "key must be a string"
  | trailingComma => "trailing comma"
  | trailingText => "trailing characters"
  | unpairedSurrogate => "lone leading surrogate in hex escape"
  | missingSurrogate => "unexpected end of hex escape"
  | tooDeep => "recursion limit exceeded"
  | wrongType found wanted => "invalid type: " ++ found.description ++ ", expected " ++ wanted
  | outOfRange n wanted => "invalid value: integer `" ++ toString n ++ "`, expected " ++ wanted
  | missingField name => "missing field `" ++ name ++ "`"
  | repeatedField name => "duplicate field `" ++ name ++ "`"
  | wrongLength length wanted =>
    "invalid length " ++ toString length ++ ", expected " ++ wanted

end TokenTariff.Json
