/-!
# TOML values

A table is written in several ways, and the way decides what may be added to it later: a table with
a header is complete under that header, one that only the headers of its parts imply still waits for
a header of its own, one that dotted keys go through grows by further dotted keys, and one in braces
never grows. An implied table becomes one of dotted keys as soon as such a key goes through it. Every
header in double brackets adds a table to a list of tables, of which the last is the one that later
headers and dotted keys go through.
-/

namespace TokenTariff.Toml
set_option autoImplicit false

/-- How a table is written. -/
inductive TableForm where
  | header
  | implied
  | dotted
  | inline
  deriving DecidableEq

inductive Value where
  | text (content : String)
  | boolean (b : Bool)
  | integer (n : Int)
  | float
  | time
  | list (items : List Value)
  | table (form : TableForm) (members : List (String × Value))
  /-- The tables of a list of tables, the last of them first. -/
  | tables (last : List (String × Value)) (earlier : List (List (String × Value)))

/-- The members of a table in the order in which they were added. -/
abbrev Members : Type := List (String × Value)

namespace Members

/-- Gives a member another value. -/
def replace (members : Members) (name : String) (value : Value) : Members :=
  members.map fun (other, kept) => if other = name then (other, value) else (other, kept)

/-- Adds a member to the table to which a dotted key leads, the parts of the key before its last
one being `path`. -/
def assign (name : String) (value : Value) : (path : List String) → Members → Option Members
  | [], members =>
    match members.lookup name with
    | none => some (members ++ [(name, value)])
    | some _ => none
  | part :: path, members =>
    match members.lookup part with
    | none => do
      let inner ← assign name value path []
      some (members ++ [(part, .table .dotted inner)])
    | some (.table form inner) =>
      if form = .dotted ∨ form = .implied then do
        let inner ← assign name value path inner
        some (members.replace part (.table .dotted inner))
      else none
    | some (.tables last earlier) =>
      if path = [] then none
      else do
        let last ← assign name value path last
        some (members.replace part (.tables last earlier))
    | some _ => none

/-- Adds members one after the other, each with the path and the name of its key. -/
def assignAll (assignments : List ((List String × String) × Value)) (members : Members) :
    Option Members :=
  assignments.foldlM (fun members ((path, name), value) => members.assign name value path) members

/-- Changes the table to which the header of one of its parts leads. -/
def within (change : Members → Option Members) : (path : List String) → Members → Option Members
  | [], members => change members
  | part :: path, members =>
    match members.lookup part with
    | none => do
      let inner ← within change path []
      some (members ++ [(part, .table .implied inner)])
    | some (.table form inner) =>
      if form = .inline then none
      else do
        let inner ← within change path inner
        some (members.replace part (.table form inner))
    | some (.tables last earlier) => do
      let last ← within change path last
      some (members.replace part (.tables last earlier))
    | some _ => none

/-- Adds a table under a header in single brackets. -/
def addTable (name : String) (assignments : List ((List String × String) × Value))
    (members : Members) : Option Members :=
  match members.lookup name with
  | none => do
    let inner ← assignAll assignments []
    some (members ++ [(name, .table .header inner)])
  | some (.table .implied inner) => do
    let inner ← assignAll assignments inner
    some (members.replace name (.table .header inner))
  | some _ => none

/-- Adds a table under a header in double brackets. -/
def addToTables (name : String) (assignments : List ((List String × String) × Value))
    (members : Members) : Option Members :=
  match members.lookup name with
  | none => do
    let inner ← assignAll assignments []
    some (members ++ [(name, .tables inner [])])
  | some (.tables last earlier) => do
    let inner ← assignAll assignments []
    some (members.replace name (.tables inner (last :: earlier)))
  | some _ => none

end Members

end TokenTariff.Toml
