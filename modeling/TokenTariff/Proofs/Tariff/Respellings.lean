import Mathlib.Logic.Relation
import TokenTariff.Proofs.Tariff.Meaning
import TokenTariff.Proofs.Text.SmallLetters
/-!
# Spellings of one name

A name is spelled in another way by putting in or taking out separators and by writing ASCII letters
in the other case. Each such change keeps the letters of the name (`Change.letters_eq`), any number
of them leads from one name to every other one with these letters (`isRespelling_iff`), and the
letters determine the normal form (`normalForm_eq_of_letters`), which is all that the last two ways
of the search look at. For names in ASCII the normal form is no more than the letters.

* `IsRespelling`: two names of which one is spelled in another way than the other;
* `normalForm_is_normal`: what normal forms and the search make of them.
-/

namespace TokenTariff
set_option autoImplicit false

namespace ModelName
open Text

/-! ## Normal forms -/

/-- Lower-casing makes no separator. -/
theorem not_isSeparator_of_isSmall {c : Char} (small : IsSmall c) : isSeparator c = false := by
  refine Bool.eq_false_iff.2 fun separator => ?_
  have mem := List.contains_iff_mem.1 separator
  simp only [List.mem_cons, List.not_mem_nil, or_false] at mem
  rcases mem with rfl | rfl | rfl | rfl | rfl | rfl <;> exact absurd small.2 (by decide)

theorem not_isSeparator_of_mem_lowerChar {c d : Char} (h : d ∈ lowerChar c)
    (kept : isSeparator c = false) : isSeparator d = false := by
  rcases lowerChar_cases c with same | small
  · rw [same, List.mem_singleton] at h
    rw [h, kept]
  · exact not_isSeparator_of_isSmall (small d h)

/-- What is in a normal form comes from the characters of the name other than separators. -/
theorem mem_normalForm_iff {name : String} {d : Char} :
    d ∈ (normalForm name).toList ↔
      ∃ c ∈ name.toList, isSeparator c = false ∧ d ∈ lowerChar c := by
  simp [normalForm, and_assoc]

theorem not_isSeparator_of_mem_normalForm {name : String} {d : Char}
    (h : d ∈ (normalForm name).toList) : isSeparator d = false := by
  obtain ⟨c, -, kept, lower⟩ := mem_normalForm_iff.1 h
  exact not_isSeparator_of_mem_lowerChar lower kept

theorem normalForm_normalForm (name : String) :
    normalForm (normalForm name) = normalForm name := by
  have noSeparator : (normalForm name).toList.filter (!isSeparator ·) = (normalForm name).toList :=
    List.filter_eq_self.2 fun d mem => by simp [not_isSeparator_of_mem_normalForm mem]
  have lower : ∀ d ∈ (normalForm name).toList, lowerChar d = [d] := by
    intro d mem
    obtain ⟨c, -, -, lower⟩ := mem_normalForm_iff.1 mem
    exact lowerChar_of_mem lower
  rw [← String.toList_inj, normalForm, String.toList_ofList, noSeparator,
    List.flatMap_congr lower, List.flatMap_singleton']

/-! ## The letters of a name -/

/-- What relates every character to itself, and those of ASCII to their small letters, relates every
character to its small letter. -/
theorem holds_toLower {p : Char → Char → Prop} (same : ∀ c, p c c)
    (ascii : ∀ n < 0x80, p (Char.ofNat n) (Char.ofNat n).toLower) (c : Char) : p c c.toLower := by
  by_cases upper : 'A' ≤ c ∧ c ≤ 'Z'
  · have last : c.toNat ≤ 'Z'.toNat := upper.2
    have here := ascii c.toNat (lt_of_le_of_lt last (by decide))
    rwa [Char.ofNat_toNat] at here
  · have unchanged : c.toLower = c := dif_neg upper
    rw [unchanged]
    exact same c

theorem toLower_toLower (c : Char) : c.toLower.toLower = c.toLower :=
  holds_toLower (p := fun c d => d.toLower = c.toLower) (fun _ => rfl) (by decide +kernel) c

theorem isSeparator_toLower (c : Char) : isSeparator c.toLower = isSeparator c :=
  holds_toLower (p := fun c d => isSeparator d = isSeparator c) (fun _ => rfl) (by decide +kernel) c

theorem lowerChar_toLower (c : Char) : lowerChar c.toLower = lowerChar c :=
  holds_toLower (p := fun c d => lowerChar d = lowerChar c) (fun _ => rfl) (by decide +kernel) c

/-- The characters other than separators, without the case of ASCII letters. -/
def letters (chars : List Char) : List Char :=
  (chars.filter (!isSeparator ·)).map Char.toLower

@[simp] theorem letters_append (a b : List Char) : letters (a ++ b) = letters a ++ letters b := by
  simp [letters]

theorem letters_cons_separator {c : Char} (h : isSeparator c = true) (chars : List Char) :
    letters (c :: chars) = letters chars := by
  simp [letters, h]

theorem letters_cons {c : Char} (h : isSeparator c = false) (chars : List Char) :
    letters (c :: chars) = c.toLower :: letters chars := by
  simp [letters, h]

theorem letters_congr {c d : Char} (same : c.toLower = d.toLower) (chars : List Char) :
    letters (c :: chars) = letters (d :: chars) := by
  have both : isSeparator c = isSeparator d := by
    rw [← isSeparator_toLower c, same, isSeparator_toLower d]
  cases h : isSeparator d with
  | true => rw [letters_cons_separator h, letters_cons_separator (both.trans h)]
  | false => rw [letters_cons h, letters_cons (both.trans h), same]

theorem normalForm_eq_letters (name : String) :
    normalForm name = String.ofList ((letters name.toList).flatMap lowerChar) := by
  rw [normalForm, letters, List.flatMap_map]
  simp only [lowerChar_toLower]

theorem normalForm_eq_of_letters {a b : String} (h : letters a.toList = letters b.toList) :
    normalForm a = normalForm b := by
  rw [normalForm_eq_letters, normalForm_eq_letters, h]

/-- In ASCII nothing but the letters is left. -/
theorem normalForm_of_ascii {name : String} (ascii : ∀ c ∈ name.toList, c.toNat < 0x80) :
    (normalForm name).toList = letters name.toList := by
  have lower : ∀ c ∈ name.toList.filter (!isSeparator ·), lowerChar c = [c.toLower] :=
    fun c mem => lowerChar_of_ascii (ascii c (List.mem_of_mem_filter mem))
  rw [normalForm, String.toList_ofList, letters, List.map_eq_flatMap, List.flatMap_congr lower]

/-! ## Respellings -/

/-- One change to the spelling of a name. -/
inductive Change : List Char → List Char → Prop
  | insert {c : Char} (before after : List Char) (separator : isSeparator c = true) :
    Change (before ++ after) (before ++ c :: after)
  | delete {c : Char} (before after : List Char) (separator : isSeparator c = true) :
    Change (before ++ c :: after) (before ++ after)
  | recase {c d : Char} (before after : List Char) (same : c.toLower = d.toLower) :
    Change (before ++ c :: after) (before ++ d :: after)

/-- Whether one name becomes another one by changes to its spelling. -/
def IsRespelling (a b : String) : Prop :=
  Relation.ReflTransGen Change a.toList b.toList

theorem Change.letters_eq {a b : List Char} (h : Change a b) : letters a = letters b := by
  cases h with
  | insert before after separator =>
    rw [letters_append, letters_append, letters_cons_separator separator]
  | delete before after separator =>
    rw [letters_append, letters_append, letters_cons_separator separator]
  | recase before after same =>
    rw [letters_append, letters_append, letters_congr same]

instance : Std.Symm Change where
  symm _ _
    | .insert before after separator => .delete before after separator
    | .delete before after separator => .insert before after separator
    | .recase before after same => .recase before after same.symm

theorem Change.cons (c : Char) {a b : List Char} (h : Change a b) : Change (c :: a) (c :: b) := by
  cases h with
  | insert before after separator => exact .insert (c :: before) after separator
  | delete before after separator => exact .delete (c :: before) after separator
  | recase before after same => exact .recase (c :: before) after same

theorem letters_eq_of_changes {a b : List Char} (h : Relation.ReflTransGen Change a b) :
    letters a = letters b := by
  induction h with
  | refl => rfl
  | tail _ change ih => rw [ih, change.letters_eq]

/-- Every name can be changed into its letters alone. -/
theorem changes_letters (chars : List Char) :
    Relation.ReflTransGen Change chars (letters chars) := by
  induction chars with
  | nil => exact .refl
  | cons c chars ih =>
    have rest : Relation.ReflTransGen Change (c :: chars) (c :: letters chars) :=
      ih.lift (c :: ·) fun _ _ => Change.cons c
    cases separator : isSeparator c with
    | true =>
      rw [letters_cons_separator separator]
      exact rest.tail (.delete [] _ separator)
    | false =>
      rw [letters_cons separator]
      exact rest.tail (.recase [] _ (toLower_toLower c).symm)

theorem isRespelling_iff {a b : String} :
    IsRespelling a b ↔ letters a.toList = letters b.toList := by
  constructor
  · exact letters_eq_of_changes
  · intro same
    have there := changes_letters a.toList
    rw [same] at there
    exact there.trans (symm (changes_letters b.toList))

instance (a b : String) : Decidable (IsRespelling a b) :=
  decidable_of_iff _ isRespelling_iff.symm

end ModelName

namespace Table
open ModelName

variable {table : Table} {models : List (String × String)} {name : String}

/-- What is left of the search for a name no spelling of which is listed. -/
theorem resolveAmong_of_unlisted (given : name ≠ "")
    (unlisted : ∀ spelling ∈ spellings name, spelling ∉ table.listed) :
    table.resolveAmong models name = table.byNormalForm models (normalForm name) := by
  have none : (spellings name).findSome? table.exact = none := by
    refine List.findSome?_eq_none_iff.2 fun spelling mem => ?_
    exact Option.not_isSome_iff_eq_none.1 (isSome_exact_iff.not.2 (unlisted spelling mem))
  unfold resolveAmong
  rw [if_neg (by simpa using given)]
  simp only
  rw [exact_or_spellings, none, Option.none_or]

/-- Normal forms are joined as their names are. A normal form is its own normal form and has no
separators. Respellings of a name have its normal form, and in ASCII no other names have it. So the
last two ways of the search through a table, in whatever order it goes through the index, find the
same for all respellings, and so does the whole search for names of which no spelling is listed. -/
theorem normalForm_is_normal :
    (∀ a b, normalForm (a ++ b) = normalForm a ++ normalForm b) ∧
    (∀ name, normalForm (normalForm name) = normalForm name) ∧
    (∀ name, ∀ c ∈ (normalForm name).toList, c ∉ ['-', '_', '.', ':', '/', ' ']) ∧
    (∀ a b, IsRespelling a b → normalForm a = normalForm b) ∧
    (∀ a b, (∀ c ∈ a.toList ++ b.toList, c.toNat < 0x80) → normalForm a = normalForm b →
      IsRespelling a b) ∧
    ∀ (table : Table) (models : List (String × String)) (a b : String), IsRespelling a b →
      table.byNormalForm models (normalForm a) = table.byNormalForm models (normalForm b) ∧
      (a ≠ "" → b ≠ "" → (∀ spelling ∈ spellings a ++ spellings b, spelling ∉ table.listed) →
        table.resolveAmong models a = table.resolveAmong models b) := by
  have share : ∀ a b, IsRespelling a b → normalForm a = normalForm b :=
    fun a b respelled => normalForm_eq_of_letters (isRespelling_iff.1 respelled)
  refine ⟨normalForm_append, normalForm_normalForm, fun name c mem separator => ?_, share,
    fun a b ascii same => ?_, fun table models a b respelled => ⟨?_, ?_⟩⟩
  · have kept := not_isSeparator_of_mem_normalForm mem
    rw [isSeparator, List.contains_iff_mem.2 separator] at kept
    cases kept
  · rw [isRespelling_iff, ← normalForm_of_ascii fun c mem => ascii c (List.mem_append_left _ mem),
      ← normalForm_of_ascii fun c mem => ascii c (List.mem_append_right _ mem), same]
  · rw [share a b respelled]
  · intro given given' unlisted
    rw [resolveAmong_of_unlisted given fun s mem => unlisted s (List.mem_append_left _ mem),
      resolveAmong_of_unlisted given' fun s mem => unlisted s (List.mem_append_right _ mem),
      share a b respelled]

/-- Two respellings of a name that is listed in a third one. -/
theorem normalForm_is_normal_three_spellings :
    let table : Table := .ofRates (.ofList [("Claude Sonnet:4", {}), ("claude", {})])
    IsRespelling "claude-sonnet-4" "/CLAUDE_sonnet.4" ∧
      normalForm "claude-sonnet-4" = normalForm "/CLAUDE_sonnet.4" ∧
      IsRespelling "claude-sonnet-4" (normalForm "Claude Sonnet:4") ∧
      table.resolve "claude-sonnet-4" = table.resolve "/CLAUDE_sonnet.4" ∧
      (table.resolve "claude-sonnet-4").map Resolved.key = some "Claude Sonnet:4" := by
  intro table
  have respelled : IsRespelling "claude-sonnet-4" "/CLAUDE_sonnet.4" := by decide
  obtain ⟨-, -, -, share, complete, found⟩ := normalForm_is_normal
  have ascii : ("claude-sonnet-4".toList ++ (normalForm "Claude Sonnet:4").toList).all
      (·.toNat < 0x80) = true := by decide +kernel
  have toForm := complete "claude-sonnet-4" (normalForm "Claude Sonnet:4")
    (fun c mem => of_decide_eq_true (List.all_eq_true.1 ascii c mem)) (by decide +kernel)
  obtain ⟨-, same⟩ := found table table.index.entries _ _ respelled
  exact ⟨respelled, share _ _ respelled, toForm,
    same (by decide) (by decide) (by decide +kernel), by decide +kernel⟩

end Table

end TokenTariff
