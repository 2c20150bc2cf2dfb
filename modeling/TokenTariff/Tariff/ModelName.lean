import TokenTariff.Text.Containment
import TokenTariff.Text.Lowercase
/-!
# Model names

Providers spell the name of one model in many ways: with other separators, in other cases, behind
the region where it runs or the maker who offers it.

* `normalForm` is what all spellings of a name have in common;
* `withoutRegion` and `withoutMaker` take off what stands before a name.
-/

namespace TokenTariff.ModelName
set_option autoImplicit false

/-- The characters that only divide the parts of a name. -/
def isSeparator (c : Char) : Bool :=
  ['-', '_', '.', ':', '/', ' '].contains c

/-- A name in lower case and without separators. -/
def normalForm (name : String) : String :=
  String.ofList ((name.toList.filter (!isSeparator ·)).flatMap Text.lowerChar)

@[simp] theorem normalForm_append (a b : String) :
    normalForm (a ++ b) = normalForm a ++ normalForm b := by
  simp [normalForm]

def regions : List String :=
  ["us.", "eu.", "apac."]

def maker : String := "anthropic."

/-- The name after a region, in whatever case the region is written. -/
def withoutRegion (name : String) : String :=
  (regions.findSome? (Text.afterStartAnyCase? · name)).getD name

def withoutMaker (name : String) : String :=
  (Text.afterStart? maker name).getD name

/-- The mark of a name that asks for a context of a million tokens. -/
def longContextMark : String := "[1m]"

/-- Whether a name asks for a context of a million tokens. -/
def asksForLongContext (name : String) : Bool :=
  Text.containsText (Text.lowercase name) longContextMark

end TokenTariff.ModelName
