/-!
# Dictionaries

A dictionary keeps values under names. The names are strictly ascending in the order of their
code points, which for text is also the order of the encoded bytes, so every listing of a
dictionary comes out in that order, whatever the order of the insertions was.

* `Dictionary.insert` replaces the value under a name that is already there;
* `Dictionary.ofList` inserts from left to right, so of two equal names the later one counts;
* `get?_insert` and `get?_ofList` say what a look-up finds.
-/

namespace TokenTariff
set_option autoImplicit false

/-! ## Insertion into an ascending list -/

/-- Puts `value` under `name`, in place of the value that was there. -/
def insertAscending {α : Type} (name : String) (value : α) :
    List (String × α) → List (String × α)
  | [] => [(name, value)]
  | (other, kept) :: rest =>
    if name < other then (name, value) :: (other, kept) :: rest
    else if name = other then (name, value) :: rest
    else (other, kept) :: insertAscending name value rest

theorem mem_insertAscending {α : Type} {name : String} {value : α} {item : String × α} :
    ∀ {entries : List (String × α)},
      item ∈ insertAscending name value entries → item = (name, value) ∨ item ∈ entries
  | [], h => by simpa [insertAscending] using h
  | (other, kept) :: rest, h => by
    simp only [insertAscending] at h
    split at h
    · simpa using h
    · split at h
      · rcases List.mem_cons.1 h with h | h
        · exact .inl h
        · exact .inr (List.mem_cons_of_mem _ h)
      · rcases List.mem_cons.1 h with h | h
        · exact .inr (h ▸ List.mem_cons_self)
        · exact (mem_insertAscending h).imp id (List.mem_cons_of_mem _)

theorem name_lt_of_not_lt_of_ne {a b : String} (not_lt : ¬ a < b) (ne : a ≠ b) : b < a := by
  rcases Std.Trichotomous.rel_or_eq_or_rel_swap (r := (· < · : String → String → Prop)) with h | h | h
  · exact absurd h not_lt
  · exact absurd h ne
  · exact h

theorem pairwise_insertAscending {α : Type} (name : String) (value : α) :
    ∀ {entries : List (String × α)}, entries.Pairwise (·.1 < ·.1) →
      (insertAscending name value entries).Pairwise (·.1 < ·.1)
  | [], _ => by simp [insertAscending]
  | (other, kept) :: rest, h => by
    have tail := (List.pairwise_cons.1 h).2
    have above := (List.pairwise_cons.1 h).1
    simp only [insertAscending]
    split
    · next lt =>
      refine List.pairwise_cons.2 ⟨fun item mem => ?_, h⟩
      rcases List.mem_cons.1 mem with rfl | mem
      · exact lt
      · exact String.lt_trans lt (above item mem)
    · next not_lt =>
      split
      · next eq => exact List.pairwise_cons.2 ⟨fun item mem => eq ▸ above item mem, tail⟩
      · next ne =>
        refine List.pairwise_cons.2 ⟨fun item mem => ?_, pairwise_insertAscending name value tail⟩
        rcases mem_insertAscending mem with rfl | mem
        · exact name_lt_of_not_lt_of_ne not_lt ne
        · exact above item mem

/-! ## The type -/

/-- Values under names, the names strictly ascending. -/
structure Dictionary (α : Type) where
  entries : List (String × α)
  ascending : entries.Pairwise (·.1 < ·.1)

namespace Dictionary
variable {α β : Type}

def empty : Dictionary α := ⟨[], .nil⟩

instance : Inhabited (Dictionary α) := ⟨empty⟩

def get? (d : Dictionary α) (name : String) : Option α :=
  d.entries.lookup name

def contains (d : Dictionary α) (name : String) : Bool :=
  (d.get? name).isSome

def names (d : Dictionary α) : List String :=
  d.entries.map (·.1)

def size (d : Dictionary α) : Nat :=
  d.entries.length

def isEmpty (d : Dictionary α) : Bool :=
  d.entries.isEmpty

def first? (d : Dictionary α) : Option (String × α) :=
  d.entries.head?

def insert (d : Dictionary α) (name : String) (value : α) : Dictionary α :=
  ⟨insertAscending name value d.entries, pairwise_insertAscending name value d.ascending⟩

/-- Puts `value` under `name` unless there is a value already. -/
def insertNew (d : Dictionary α) (name : String) (value : α) : Dictionary α :=
  if d.contains name then d else d.insert name value

/-- The dictionary of a list of named values; of two equal names the later one counts. -/
def ofList (items : List (String × α)) : Dictionary α :=
  items.foldl (fun d item => d.insert item.1 item.2) empty

/-- The entries for which `f` gives a value, under the names they have. -/
def filterMap (f : String → α → Option β) (d : Dictionary α) : Dictionary β where
  entries := d.entries.filterMap fun item => (f item.1 item.2).map (item.1, ·)
  ascending := by
    refine List.pairwise_filterMap.2 (d.ascending.imp fun {a b} lt a' ha b' hb => ?_)
    obtain ⟨_, _, rfl⟩ := Option.map_eq_some_iff.1 ha
    obtain ⟨_, _, rfl⟩ := Option.map_eq_some_iff.1 hb
    exact lt

/-! ## What a look-up finds -/

theorem lookup_cons_name (name wanted : String) (value : α) (rest : List (String × α)) :
    ((name, value) :: rest).lookup wanted =
      if wanted = name then some value else rest.lookup wanted := by
  by_cases h : wanted = name
  · simp [h]
  · have : (wanted == name) = false := by simpa using h
    simp [List.lookup_cons, h, this]

theorem lookup_insertAscending (name wanted : String) (value : α) :
    ∀ entries : List (String × α),
      (insertAscending name value entries).lookup wanted =
        if wanted = name then some value else entries.lookup wanted
  | [] => by simp [insertAscending, lookup_cons_name]
  | (other, kept) :: rest => by
    simp only [insertAscending]
    split
    · simp only [lookup_cons_name]
    · split
      · next eq =>
        subst eq
        simp only [lookup_cons_name]
        split <;> rfl
      · next ne =>
        simp only [lookup_cons_name, lookup_insertAscending name wanted value rest]
        by_cases h : wanted = other
        · have : wanted ≠ name := fun e => ne (e ▸ h)
          simp only [if_pos h, if_neg this]
        · simp only [if_neg h]

@[simp] theorem get?_empty (name : String) : (empty : Dictionary α).get? name = none := rfl

@[simp] theorem get?_insert (d : Dictionary α) (name wanted : String) (value : α) :
    (d.insert name value).get? wanted = if wanted = name then some value else d.get? wanted :=
  lookup_insertAscending name wanted value d.entries

theorem get?_foldl_insert (wanted : String) :
    ∀ (items : List (String × α)) (d : Dictionary α),
      (items.foldl (fun d item => d.insert item.1 item.2) d).get? wanted =
        (items.reverse.lookup wanted).or (d.get? wanted)
  | [], d => by simp
  | (name, value) :: rest, d => by
    have ih := get?_foldl_insert wanted rest (d.insert name value)
    simp only [List.foldl_cons, ih, get?_insert, List.reverse_cons, List.lookup_append]
    cases h : rest.reverse.lookup wanted with
    | some found => simp
    | none =>
      by_cases eq : wanted = name <;> simp [lookup_cons_name, eq]

/-- A look-up finds the last value that the list has under the name. -/
@[simp] theorem get?_ofList (items : List (String × α)) (name : String) :
    (ofList items).get? name = items.reverse.lookup name := by
  simp [ofList, get?_foldl_insert]

end Dictionary

end TokenTariff
