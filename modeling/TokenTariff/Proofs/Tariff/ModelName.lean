import Mathlib.Data.List.Forall2
import Mathlib.Data.String.Basic
import TokenTariff.Proofs.Text.Lowercase
import TokenTariff.Tariff.ModelName
/-!
# What may stand before a model name

A name loses a region, in whatever case it is written, and a maker as it is written
(`withoutRegion_append`, `withoutMaker_append`). One that no region stands before keeps all of its
text (`withoutRegion_of_no_region`).

* `SameInAnyCase`: texts that differ at most in the case of ASCII letters;
* `IsRegion`: the texts that are taken off as regions;
* `eq_append_withoutRegion`, `eq_append_withoutMaker`: what was taken off a name.
-/

namespace TokenTariff
set_option autoImplicit false

namespace Text

/-! ## After the start of a text -/

theorem dropMatching?_eq_some_iff {same : Char → Char → Bool} :
    ∀ {start text rest : List Char}, dropMatching? same start text = some rest ↔
      ∃ front, text = front ++ rest ∧ List.Forall₂ (same · ·) start front
  | [], text, rest => by
    simp only [dropMatching?, Option.some.injEq, List.forall₂_nil_left_iff]
    constructor
    · rintro rfl
      exact ⟨[], rfl, rfl⟩
    · rintro ⟨_, rfl, rfl⟩
      rfl
  | s :: start, [], rest => by
    simp only [dropMatching?, reduceCtorEq, false_iff]
    rintro ⟨front, e, all⟩
    obtain ⟨rfl, -⟩ := List.append_eq_nil_iff.1 e.symm
    cases all
  | s :: start, c :: text, rest => by
    rw [dropMatching?]
    split
    · next same =>
      rw [dropMatching?_eq_some_iff]
      constructor
      · rintro ⟨front, rfl, all⟩
        exact ⟨c :: front, rfl, .cons same all⟩
      · rintro ⟨_, e, all⟩
        cases all with
        | cons _ all =>
          obtain ⟨rfl, rfl⟩ := List.cons.inj e
          exact ⟨_, rfl, all⟩
    · next differ =>
      simp only [reduceCtorEq, false_iff]
      rintro ⟨_, e, all⟩
      cases all with
      | cons same _ =>
        obtain ⟨rfl, rfl⟩ := List.cons.inj e
        exact differ same

/-- Whether two texts differ at most in the case of ASCII letters. -/
def SameInAnyCase (a b : String) : Prop :=
  a.toList.map Char.toLower = b.toList.map Char.toLower

theorem afterStart?_eq_some_iff {start text rest : String} :
    afterStart? start text = some rest ↔ text = start ++ rest := by
  have all {front : List Char} :
      List.Forall₂ (fun a b => (a == b) = true) start.toList front ↔ start.toList = front := by
    simp only [beq_iff_eq, List.forall₂_eq_eq_eq]
  rw [afterStart?, Option.map_eq_some_iff]
  simp only [dropMatching?_eq_some_iff, all]
  constructor
  · rintro ⟨_, ⟨_, e, rfl⟩, rfl⟩
    exact String.toList_inj.1 (by simp [e])
  · rintro rfl
    exact ⟨rest.toList, ⟨start.toList, by simp, rfl⟩, by simp⟩

theorem afterStartAnyCase?_eq_some_iff {start text rest : String} :
    afterStartAnyCase? start text = some rest ↔
      ∃ front, text = front ++ rest ∧ SameInAnyCase start front := by
  have all {front : List Char} :
      List.Forall₂ (fun s c => (s.toLower == c.toLower) = true) start.toList front ↔
        start.toList.map Char.toLower = front.map Char.toLower := by
    rw [← List.forall₂_eq_eq_eq, List.forall₂_map_left_iff, List.forall₂_map_right_iff]
    simp only [beq_iff_eq]
  rw [afterStartAnyCase?, Option.map_eq_some_iff]
  simp only [dropMatching?_eq_some_iff, all]
  constructor
  · rintro ⟨chars, ⟨front, e, same⟩, rfl⟩
    exact ⟨String.ofList front, String.toList_inj.1 (by simp [e]), by simpa [SameInAnyCase]⟩
  · rintro ⟨front, rfl, same⟩
    exact ⟨rest.toList, ⟨front.toList, by simp, same⟩, by simp⟩

end Text

namespace ModelName

/-! ## What is left in normal form -/

theorem normalForm_ne_empty_of_mem {name : String} {c : Char} (mem : c ∈ name.toList)
    (kept : isSeparator c = false) : normalForm name ≠ "" := by
  obtain ⟨d, lower⟩ := List.exists_mem_of_ne_nil _ (Text.lowerChar_ne_nil c)
  have left : d ∈ (normalForm name).toList := by
    rw [normalForm, String.toList_ofList, List.mem_flatMap]
    exact ⟨c, List.mem_filter.2 ⟨mem, by simp [kept]⟩, lower⟩
  intro empty
  rw [empty] at left
  cases left

theorem normalForm_ne_empty_of_append {front : String} (rest : String)
    (h : normalForm front ≠ "") : normalForm (front ++ rest) ≠ "" := by
  rw [normalForm_append]
  exact fun empty => h (String.append_eq_empty_iff.1 empty).1

/-! ## Regions -/

/-- Whether a text is a region as it may stand before a name. -/
def IsRegion (front : String) : Prop :=
  ∃ region ∈ regions, Text.SameInAnyCase region front

/-- In lower case a region is as it is listed. -/
theorem IsRegion.lowercase_mem {front : String} (h : IsRegion front) :
    Text.lowercase front ∈ regions := by
  obtain ⟨region, mem, same⟩ := h
  have small : ∀ region ∈ regions, region.toList.map Char.toLower = region.toList ∧
      region.toList.all (·.toNat < 0x80) = true := by decide
  obtain ⟨lower, ascii⟩ := small region mem
  have chars : front.toList.map Char.toLower = region.toList := same.symm.trans lower
  have lowercase : (Text.lowercase front).toList = region.toList := by
    rw [Text.lowercase_of_ascii, chars]
    intro c mem
    have lowered : c.toLower ∈ region.toList := chars ▸ List.mem_map_of_mem mem
    exact Text.ascii_of_toLower (of_decide_eq_true (List.all_eq_true.1 ascii _ lowered))
  rwa [String.toList_inj.1 lowercase]

theorem toLower_of_isSeparator {c : Char} (h : isSeparator c = true) : c.toLower = c := by
  have mem := List.contains_iff_mem.1 h
  simp only [List.mem_cons, List.not_mem_nil, or_false] at mem
  rcases mem with rfl | rfl | rfl | rfl | rfl | rfl <;> rfl

theorem IsRegion.exists_letter {front : String} (h : IsRegion front) :
    ∃ c ∈ front.toList, isSeparator c = false := by
  obtain ⟨region, mem, same⟩ := h
  have letter : ∀ region ∈ regions,
      (region.toList.map Char.toLower).any (!isSeparator ·) = true := by decide
  obtain ⟨s, memS, plain⟩ := List.any_eq_true.1 (letter region mem)
  rw [same] at memS
  obtain ⟨c, memC, rfl⟩ := List.mem_map.1 memS
  refine ⟨c, memC, Bool.eq_false_iff.2 fun separator => ?_⟩
  rw [toLower_of_isSeparator separator, separator] at plain
  cases plain

/-- No region begins another one, so a name begins with at most one. -/
theorem IsRegion.append_inj {a b a' b' : String} (ha : IsRegion a) (hb : IsRegion b)
    (e : a ++ a' = b ++ b') : a = b ∧ a' = b' := by
  have chars : a.toList ++ a'.toList = b.toList ++ b'.toList := by
    rw [← String.toList_append, e, String.toList_append]
  have length : a.toList.length = b.toList.length := by
    obtain ⟨region, mem, same⟩ := ha
    obtain ⟨region', mem', same'⟩ := hb
    have lower := congrArg (List.map Char.toLower) chars
    rw [List.map_append, List.map_append, ← same, ← same'] at lower
    have la : a.toList.length = region.toList.length := by
      simpa using congrArg List.length same.symm
    have lb : b.toList.length = region'.toList.length := by
      simpa using congrArg List.length same'.symm
    rw [la, lb]
    simp only [regions, List.mem_cons, List.not_mem_nil, or_false] at mem mem'
    rcases mem with rfl | rfl | rfl <;> rcases mem' with rfl | rfl | rfl <;>
      simp at lower ⊢
  obtain ⟨h, h'⟩ := List.append_inj chars length
  exact ⟨String.toList_inj.1 h, String.toList_inj.1 h'⟩

theorem withoutRegion_append {front : String} (region : IsRegion front) (rest : String) :
    withoutRegion (front ++ rest) = rest := by
  have found : ∃ tail, regions.findSome? (Text.afterStartAnyCase? · (front ++ rest)) = some tail := by
    obtain ⟨region, mem, same⟩ := region
    refine Option.isSome_iff_exists.1 (List.findSome?_isSome_iff.2 ⟨region, mem, ?_⟩)
    exact Option.isSome_iff_exists.2 ⟨rest, Text.afterStartAnyCase?_eq_some_iff.2 ⟨front, rfl, same⟩⟩
  obtain ⟨tail, found⟩ := found
  obtain ⟨other, mem, after⟩ := List.exists_of_findSome?_eq_some found
  obtain ⟨front', e, same⟩ := Text.afterStartAnyCase?_eq_some_iff.1 after
  rw [withoutRegion, found, Option.getD_some]
  exact (region.append_inj ⟨other, mem, same⟩ e).2.symm

theorem withoutRegion_of_no_region {name : String}
    (no : ∀ front rest, IsRegion front → name ≠ front ++ rest) : withoutRegion name = name := by
  have none : regions.findSome? (Text.afterStartAnyCase? · name) = none := by
    refine List.findSome?_eq_none_iff.2 fun region mem => ?_
    refine Option.eq_none_iff_forall_ne_some.2 fun rest found => ?_
    obtain ⟨front, e, same⟩ := Text.afterStartAnyCase?_eq_some_iff.1 found
    exact no front rest ⟨region, mem, same⟩ e
  rw [withoutRegion, none, Option.getD_none]

theorem eq_append_withoutRegion (name : String) :
    ∃ front, name = front ++ withoutRegion name ∧ (front = "" ∨ IsRegion front) := by
  cases found : regions.findSome? (Text.afterStartAnyCase? · name) with
  | none =>
    refine ⟨"", ?_, .inl rfl⟩
    rw [withoutRegion, found, Option.getD_none, String.empty_append]
  | some rest =>
    obtain ⟨region, mem, after⟩ := List.exists_of_findSome?_eq_some found
    obtain ⟨front, split, same⟩ := Text.afterStartAnyCase?_eq_some_iff.1 after
    refine ⟨front, ?_, .inr ⟨region, mem, same⟩⟩
    rw [withoutRegion, found, Option.getD_some, split]

theorem IsRegion.normalForm_ne_empty {front : String} (h : IsRegion front) :
    normalForm front ≠ "" := by
  obtain ⟨c, mem, kept⟩ := h.exists_letter
  exact normalForm_ne_empty_of_mem mem kept

theorem IsRegion.append_ne {front name : String} (h : IsRegion front)
    (no : withoutRegion name = name) (rest : String) : front ++ rest ≠ name := by
  intro same
  rw [← same, withoutRegion_append h] at no
  have empty : front = "" := by
    have length := congrArg String.length no
    rw [String.length_append] at length
    exact String.length_eq_zero_iff.1 (by omega)
  exact h.normalForm_ne_empty (by rw [empty]; rfl)

/-! ## Makers -/

theorem withoutMaker_append (rest : String) : withoutMaker (maker ++ rest) = rest := by
  rw [withoutMaker, Text.afterStart?_eq_some_iff.2 rfl, Option.getD_some]

theorem eq_append_withoutMaker (name : String) :
    ∃ front, name = front ++ withoutMaker name ∧ (front = "" ∨ front = maker) := by
  cases found : Text.afterStart? maker name with
  | none =>
    refine ⟨"", ?_, .inl rfl⟩
    rw [withoutMaker, found, Option.getD_none, String.empty_append]
  | some rest =>
    refine ⟨maker, ?_, .inr rfl⟩
    rw [withoutMaker, found, Option.getD_some]
    exact Text.afterStart?_eq_some_iff.1 found

end ModelName

end TokenTariff
