import TokenTariff.FileTree
import TokenTariff.Service
import TokenTariff.Toml.Document
/-!
# The configuration file

The settings that hold for every run of the program stand in a TOML file. All of them may be
missing, and what the program does not know is passed over.

* `Config.read?` reads the text of a file;
* `Config.paths` lists the files in which the program looks, and `Config.load` takes the first that
  it can read.
-/

namespace TokenTariff
set_option autoImplicit false

structure Config where
  offline : Bool
  json : Bool
  pricingUrl : Option String
  cachePath : Option String
  refreshHours : Option Nat
  deriving DecidableEq

namespace Config

def empty : Config := ⟨false, false, none, none, none⟩

/-- A setting that is off unless it is given. -/
def switch? (members : Toml.Members) (name : String) : Option Bool :=
  match members.lookup name with
  | none => some false
  | some (.boolean b) => some b
  | some _ => none

/-- A setting that is a text. -/
def text? (members : Toml.Members) (name : String) : Option (Option String) :=
  match members.lookup name with
  | none => some none
  | some (.text content) => some (some content)
  | some _ => none

/-- A setting that is a whole number of the unsigned 64-bit range. -/
def number? (members : Toml.Members) (name : String) : Option (Option Nat) :=
  match members.lookup name with
  | none => some none
  | some (.integer n) => if 0 ≤ n ∧ n < 0x10000000000000000 then some (some n.toNat) else none
  | some _ => none

/-- The settings in the text of a file. -/
def read? (text : String) : Option Config := do
  let members ← Toml.read? text
  some {
    offline := ← switch? members "offline"
    json := ← switch? members "json"
    pricingUrl := ← text? members "pricing_url"
    cachePath := ← text? members "cache_path"
    refreshHours := ← number? members "refresh_hours" }

/-- Where a user keeps configuration files: by default in a directory of the home directory. Neither
may be known. -/
structure Home where
  path : Option String
  configDirectory : Option String

/-- The file of the program among the configuration files of a directory. -/
def fileIn (directory : String) : String :=
  Path.join (Path.join directory Options.programName) "config.toml"

/-- The files in which the program looks, in this order. -/
def paths (home : Home) : List String :=
  let usual := home.path.map (Path.join · ".config")
  (usual.map fileIn).toList ++ ((home.configDirectory.or usual).map fileIn).toList ++
    (home.path.map (Path.join · ("." ++ Options.programName ++ ".toml"))).toList

def file? (disk : Disk) (path : String) : Option Config := do
  let content ← (disk.read path).toOption
  let text ← Bytes.text? content
  read? text

def load (disk : Disk) (home : Home) : Config :=
  ((paths home).findSome? (file? disk)).getD empty

end Config

end TokenTariff
