import TokenTariff.Tariff.Table
/-!
# Which model a name means

A name given to the program is looked for in several ways, and the first that finds a model counts:
the name itself, an alias, the name without a region, the name without a region and a maker, a
model with the same normal form, and at last a model whose normal form contains that of the name or
lies inside of it. Of several models found in the last way the one with the longest normal form
counts, and of those the one with the least name.
-/

namespace TokenTariff
set_option autoImplicit false

/-- A model that was found: its name in the table and its rates. -/
structure Resolved where
  key : String
  rates : Rates

namespace Table

/-- The model listed under exactly this name. -/
def exact (table : Table) (name : String) : Option Resolved :=
  (table.get? name).map (⟨name, ·⟩)

/-- Names that mean another model unless they are listed themselves. -/
def aliases : List (String × String) :=
  [("gpt-5-codex", "gpt-5")]

def byAlias (table : Table) (name : String) : Option Resolved :=
  (aliases.lookup name).bind table.exact

/-- Whether a normal form and that of a name lie one inside the other; an empty one lies nowhere. -/
def overlaps (target form : String) : Bool :=
  !form.isEmpty && (Text.containsText form target || Text.containsText target form)

/-- Whether the model `a` counts before `b`, each a normal form with a name. -/
def precedes (a b : String × String) : Bool :=
  if a.1.utf8ByteSize = b.1.utf8ByteSize then a.2 < b.2
  else b.1.utf8ByteSize < a.1.utf8ByteSize

/-- The one that counts before all others. -/
def foremost : List (String × String) → Option (String × String)
  | [] => none
  | first :: rest => some (rest.foldl (fun best c => if precedes c best then c else best) first)

/-- The foremost one of the indexed models whose normal form overlaps with `target`; `models` goes
through the index in any order. -/
def byOverlap (table : Table) (models : List (String × String)) (target : String) :
    Option Resolved :=
  if target.isEmpty then none
  else
    (foremost (models.filter fun item => overlaps target item.1)).bind
      fun item => table.exact item.2

/-- The model with the normal form `target`, or else the foremost one that overlaps with it. -/
def byNormalForm (table : Table) (models : List (String × String)) (target : String) :
    Option Resolved :=
  match table.index.get? target with
  | some name => table.exact name
  | none => table.byOverlap models target

/-- The model that a name means, where `models` goes through the index. -/
def resolveAmong (table : Table) (models : List (String × String)) (name : String) :
    Option Resolved :=
  if name.isEmpty then none
  else
    let inAnyRegion := ModelName.withoutRegion name
    table.exact name
      |>.or (table.byAlias name)
      |>.or (table.exact inAnyRegion)
      |>.or (table.exact (ModelName.withoutMaker inAnyRegion))
      |>.or (table.byNormalForm models (ModelName.normalForm name))

/-- The model that a name means. -/
def resolve (table : Table) (name : String) : Option Resolved :=
  table.resolveAmong table.index.entries name

end Table

end TokenTariff
