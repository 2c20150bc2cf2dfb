import TokenTariff.Dictionary
import TokenTariff.Json.ValueReader
import TokenTariff.Tariff.ModelName
import TokenTariff.Tariff.Rates
/-!
# Price tables

A price table has the rates of the models of one price list, an index of their names in normal
form, the rates of requests with a long context, and those of tokens that are cached for an hour.

A price list is a JSON object with a member for each model. A member that is not an object is no
model, and neither is the one that documents the fields; of two members of one name the later one
counts. Where several names have one normal form, the index keeps the least of them.

* `Table.ofRates` makes the table of published rates;
* `Table.ofFeed` and `Table.read` make the table of a price list;
* `Table.tierFor` and `Table.hourRate` look up the special rates.
-/

namespace TokenTariff
set_option autoImplicit false

/-- The rates of requests with a long context. -/
structure Tier where
  input : Float
  output : Float

structure Table where
  entries : Dictionary Rates
  /-- The least name of a model for each normal form. -/
  index : Dictionary String
  tiers : Dictionary Tier
  hourRates : Dictionary Float

/-! ## Built-in rates -/

/-- The families of models whose rates for an hour in the cache are known. -/
inductive Family where
  | opus
  | sonnet
  | haiku
  deriving DecidableEq

namespace Family

/-- All families, in the order in which a name is searched for them. -/
def all : List Family := [opus, sonnet, haiku]

/-- The word that the names of a family contain. -/
def word : Family → String
  | opus => "opus"
  | sonnet => "sonnet"
  | haiku => "haiku"

/-- Dollars for a token that is cached for an hour. -/
def hourRate : Family → Float
  | opus => 0.00003
  | sonnet => 0.000006
  | haiku => 0.0000016

/-- The models of a family that are listed by name. -/
def models : Family → List String
  | opus =>
    ["claude-opus-4-1", "claude-opus-4-1-20250805", "claude-opus-4", "claude-opus-4-20250514",
      "claude-opus-4-5-20251101", "claude-3-opus", "claude-3-opus-latest",
      "claude-3-opus-20240229"]
  | sonnet =>
    ["claude-3-5-sonnet", "claude-3-5-sonnet-latest", "claude-3-5-sonnet-20241022",
      "claude-3-5-sonnet-20240620", "claude-3-sonnet", "claude-3-sonnet-20240307",
      "claude-sonnet-3", "claude-sonnet-3-5", "claude-sonnet-3-7", "claude-sonnet-4",
      "claude-sonnet-4-20250514"]
  | haiku =>
    ["claude-3-5-haiku", "claude-3-5-haiku-latest", "claude-3-5-haiku-20241022", "claude-3-haiku",
      "claude-3-haiku-20240307", "claude-haiku-3", "claude-haiku-3-5"]

/-- The family of a model, by the first family word that its name contains. -/
def ofModel? (model : String) : Option Family :=
  all.find? fun family => Text.containsText (Text.lowercase model) family.word

end Family

/-- The rates for an hour in the cache of the models that are listed by name. -/
def builtInHourRates : Dictionary Float :=
  .ofList (Family.all.flatMap fun family => family.models.map (·, family.hourRate))

/-- The rates for a long context of the models that are listed by name. -/
def builtInTiers : Dictionary Tier :=
  .ofList [("claude-sonnet-4-20250514[1m]", ⟨0.000006, 0.0000225⟩)]

namespace Table

/-! ## Construction -/

def empty : Table := ⟨.empty, .empty, .empty, .empty⟩

/-- The least name for each normal form, of names in ascending order. -/
def indexOf (names : List String) : Dictionary String :=
  names.foldl (fun index name => index.insertNew (ModelName.normalForm name) name) .empty

def ofRates (published : Dictionary Rates) : Table where
  entries := published.filterMap fun _ rates => some rates.withCacheRates
  index := indexOf published.names
  tiers := builtInTiers
  hourRates := builtInHourRates

/-- The name of the member that documents the fields of a price list. -/
def documentationName : String := "sample_spec"

/-- The rates of a member of a price list, if it is a model. -/
def publishedRates? (name : String) (member : Json.Value) : Option Rates :=
  if name = documentationName then none
  else member.members?.map fun _ => .ofMember member

/-- The table of the members of a price list. -/
def ofFeed (members : List (String × Json.Value)) : Table :=
  .ofRates ((Dictionary.ofList members).filterMap publishedRates?)

def read (bytes : Bytes) : Except Json.Error Table :=
  (Json.whole Json.objectMembers bytes).map ofFeed

/-- The table with other rates for long contexts; of two equal names the later one counts. -/
def withTiers (table : Table) (tiers : List (String × Tier)) : Table :=
  { table with tiers := .ofList tiers }

/-! ## Look-up -/

/-- The rates listed under exactly this name. -/
def get? (table : Table) (name : String) : Option Rates :=
  table.entries.get? name

def size (table : Table) : Nat :=
  table.entries.size

/-- The rates for a long context: those listed under the name, or else the first ones listed. -/
def tierFor (table : Table) (model : String) : Option Tier :=
  (table.tiers.get? model).or (table.tiers.first?.map (·.2))

/-- Dollars for a token that is cached for an hour: the rate listed under the name, or else that of
the family, or else zero. -/
def hourRate (table : Table) (model : String) : Float :=
  (table.hourRates.get? model).getD (((Family.ofModel? model).map Family.hourRate).getD 0)

end Table

end TokenTariff
