import Mathlib.Data.String.Basic
import Mathlib.Data.List.Perm.Basic
import TokenTariff.Dictionary
/-!
# Dictionaries as maps

A dictionary is determined by what its look-ups find (`ext_get?`), so the way in which it was built
does not matter: of a list of named values only the last value under each name counts, and where no
name comes twice, not even the order of the list (`ofList_perm`).

* `mem_entries_iff`, `mem_names_iff`: what is listed is what a look-up finds;
* `get?_insertNew`, `get?_filterMap`: what the other operations do to look-ups;
* `LastUnder`: the value that stands last under a name.
-/

namespace TokenTariff
set_option autoImplicit false

/-- The value that stands last under a name in a list of named values. -/
def LastUnder {α : Type} (items : List (String × α)) (name : String) (value : α) : Prop :=
  ∃ before after, items = before ++ (name, value) :: after ∧ ∀ item ∈ after, item.1 ≠ name

theorem lookup_reverse_eq_some_iff {α : Type} {items : List (String × α)} {name : String}
    {value : α} : items.reverse.lookup name = some value ↔ LastUnder items name value := by
  rw [List.lookup_eq_some_iff]
  constructor
  · rintro ⟨later, earlier, e, other⟩
    refine ⟨earlier.reverse, later.reverse, ?_, fun item mem => ?_⟩
    · rw [← List.reverse_reverse items, e]
      simp
    · have := other item (List.mem_reverse.1 mem)
      exact fun h => by simp [h] at this
  · rintro ⟨before, after, rfl, other⟩
    refine ⟨after.reverse, before.reverse, by simp, fun item mem => ?_⟩
    have := other item (List.mem_reverse.1 mem)
    simpa using fun h => this h.symm

namespace Dictionary
variable {α β : Type}

/-! ## Entries and look-ups -/

theorem lookup_eq_some_iff_mem {name : String} {value : α} :
    ∀ {entries : List (String × α)}, entries.Pairwise (·.1 ≠ ·.1) →
      (entries.lookup name = some value ↔ (name, value) ∈ entries)
  | [], _ => by simp
  | (other, kept) :: rest, h => by
    have distinct := (List.pairwise_cons.1 h).1
    rw [lookup_cons_name, List.mem_cons, Prod.mk.injEq]
    by_cases eq : name = other
    · subst eq
      have absent : (name, value) ∉ rest := fun mem => distinct _ mem rfl
      rw [if_pos rfl]
      simp [absent, eq_comm]
    · rw [if_neg eq, lookup_eq_some_iff_mem (List.pairwise_cons.1 h).2]
      simp [eq]

theorem mem_entries_iff {d : Dictionary α} {name : String} {value : α} :
    (name, value) ∈ d.entries ↔ d.get? name = some value :=
  (lookup_eq_some_iff_mem (d.ascending.imp fun lt => ne_of_lt lt)).symm

theorem mem_names_iff {d : Dictionary α} {name : String} :
    name ∈ d.names ↔ ∃ value, d.get? name = some value := by
  simp only [names, List.mem_map, Prod.exists, ← mem_entries_iff]
  constructor
  · rintro ⟨_, value, mem, rfl⟩
    exact ⟨value, mem⟩
  · rintro ⟨value, mem⟩
    exact ⟨name, value, mem, rfl⟩

theorem contains_iff {d : Dictionary α} {name : String} :
    d.contains name = true ↔ ∃ value, d.get? name = some value :=
  Option.isSome_iff_exists

theorem names_ascending (d : Dictionary α) : d.names.Pairwise (· < ·) :=
  List.pairwise_map.2 d.ascending

/-- A dictionary is determined by what its look-ups find. -/
theorem ext_get? {d e : Dictionary α} (h : ∀ name, d.get? name = e.get? name) : d = e := by
  have mem : ∀ item, item ∈ d.entries ↔ item ∈ e.entries := fun (name, value) => by
    rw [mem_entries_iff, mem_entries_iff, h]
  have nodup {d : Dictionary α} : d.entries.Nodup :=
    d.ascending.imp fun lt eq => absurd (congrArg Prod.fst eq) (ne_of_lt lt)
  have perm : d.entries.Perm e.entries := (List.perm_ext_iff_of_nodup nodup nodup).2 mem
  have same : d.entries = e.entries :=
    perm.eq_of_pairwise (fun a b _ _ lt gt => absurd lt (lt_asymm gt)) d.ascending e.ascending
  cases d
  cases e
  cases same
  rfl

/-! ## Other operations -/

theorem get?_insertNew (d : Dictionary α) (name wanted : String) (value : α) :
    (d.insertNew name value).get? wanted =
      (d.get? wanted).or (if wanted = name then some value else none) := by
  unfold insertNew
  split
  · next has =>
    obtain ⟨old, found⟩ := contains_iff.1 has
    split
    · next eq => rw [eq, found, Option.some_or]
    · rw [Option.or_none]
  · next has =>
    rw [get?_insert]
    split
    · next eq =>
      have missing : d.get? wanted = none := by
        rw [eq, Option.eq_none_iff_forall_ne_some]
        exact fun old found => has (contains_iff.2 ⟨old, found⟩)
      rw [missing, Option.none_or]
    · rw [Option.or_none]

theorem lookup_filterMap (f : String → α → Option β) (name : String) :
    ∀ {entries : List (String × α)}, entries.Pairwise (·.1 ≠ ·.1) →
      (entries.filterMap fun item => (f item.1 item.2).map (item.1, ·)).lookup name =
        (entries.lookup name).bind (f name)
  | [], _ => rfl
  | (other, value) :: rest, h => by
    have ih := lookup_filterMap f name (List.pairwise_cons.1 h).2
    rw [lookup_cons_name]
    cases kept : f other value with
    | some result =>
      rw [List.filterMap_cons_some (by rw [kept]; rfl), lookup_cons_name, ih]
      split
      · next eq => rw [Option.bind_some, eq, kept]
      · rfl
    | none =>
      rw [List.filterMap_cons_none (by rw [kept]; rfl), ih]
      split
      · next eq =>
        have missing : rest.lookup name = none := by
          refine List.lookup_eq_none_iff.2 fun item mem => ?_
          simpa [eq] using (List.pairwise_cons.1 h).1 item mem
        rw [missing, Option.bind_none, Option.bind_some, eq, kept]
      · rfl

@[simp] theorem get?_filterMap (f : String → α → Option β) (d : Dictionary α) (name : String) :
    (d.filterMap f).get? name = (d.get? name).bind (f name) :=
  lookup_filterMap f name (d.ascending.imp fun lt => ne_of_lt lt)

/-- Where no name comes twice, the order of a list does not matter. -/
theorem ofList_perm {items items' : List (String × α)} (perm : items.Perm items')
    (distinct : (items.map (·.1)).Nodup) : ofList items = ofList items' := by
  have pairwise : items.Pairwise (·.1 ≠ ·.1) := List.pairwise_map.1 distinct
  have pairwise' : items'.Pairwise (·.1 ≠ ·.1) := perm.pairwise pairwise Ne.symm
  refine ext_get? fun name => Option.ext fun value => ?_
  rw [get?_ofList, get?_ofList,
    lookup_eq_some_iff_mem (List.pairwise_reverse.2 (pairwise.imp Ne.symm)),
    lookup_eq_some_iff_mem (List.pairwise_reverse.2 (pairwise'.imp Ne.symm)),
    List.mem_reverse, List.mem_reverse, perm.mem_iff]

end Dictionary

end TokenTariff
