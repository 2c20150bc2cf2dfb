import Mathlib.Data.String.Basic
import TokenTariff.Proofs.Text.Containment
import TokenTariff.Text.Lowercase
/-!
# Lower case in context

In running text a capital sigma has two lower-case forms, one of them for the end of a word. Which
of the two is taken depends on what stands around it (`lowercaseInContext`). Whatever the rule is, a
word without a sigma is part of the text in lower case or not as it is where each character is
taken by itself (`containsText_lowercaseInContext`).

* `lowercase_of_ascii`: the lower-case form of text in ASCII.
-/

namespace TokenTariff.Text
set_option autoImplicit false

theorem lowerChar_ne_nil (c : Char) : lowerChar c ≠ [] := by
  unfold lowerChar lowerBeyondAscii
  split
  · exact List.cons_ne_nil _ _
  · split
    · exact List.cons_ne_nil _ _
    · split <;> exact List.cons_ne_nil _ _

/-! ## ASCII -/

theorem lowerChar_of_ascii {c : Char} (ascii : c.toNat < 0x80) : lowerChar c = [c.toLower] := by
  have all : ∀ n < 0x80, lowerChar (Char.ofNat n) = [(Char.ofNat n).toLower] := by decide +kernel
  have here := all c.toNat ascii
  rwa [Char.ofNat_toNat] at here

theorem lowercase_of_ascii {text : String} (ascii : ∀ c ∈ text.toList, c.toNat < 0x80) :
    (lowercase text).toList = text.toList.map Char.toLower := by
  rw [toList_lowercase, List.map_eq_flatMap]
  exact List.flatMap_congr fun c mem => lowerChar_of_ascii (ascii c mem)

theorem ascii_of_toLower {c : Char} (h : c.toLower.toNat < 0x80) : c.toNat < 0x80 := by
  by_cases upper : 'A' ≤ c ∧ c ≤ 'Z'
  · have high : c.toNat ≤ 90 := upper.2
    omega
  · have same : c.toLower = c := dif_neg upper
    rwa [same] at h

/-! ## Sigmas -/

/-- The lower-case form of `rest` behind `before`, where `atEnd` tells of a capital sigma from what
stands before and after it whether it is the end of a word. -/
def lowercaseFrom (atEnd : List Char → List Char → Bool) (before : List Char) :
    List Char → List Char
  | [] => []
  | c :: rest =>
    (if c = 'Σ' then [if atEnd before rest then 'ς' else 'σ'] else lowerChar c) ++
      lowercaseFrom atEnd (before ++ [c]) rest

def lowercaseInContext (atEnd : List Char → List Char → Bool) (text : String) : String :=
  String.ofList (lowercaseFrom atEnd [] text.toList)

/-- A character, with no difference made between the two small sigmas. -/
def mergeSigmas (c : Char) : Char := if c = 'ς' then 'σ' else c

theorem map_mergeSigmas_lowercaseFrom (atEnd : List Char → List Char → Bool) (rest : List Char) :
    ∀ before, (lowercaseFrom atEnd before rest).map mergeSigmas =
      (rest.flatMap lowerChar).map mergeSigmas := by
  induction rest with
  | nil => exact fun _ => rfl
  | cons c rest ih =>
    intro before
    rw [lowercaseFrom, List.flatMap_cons, List.map_append, List.map_append, ih]
    congr 1
    split
    · next sigma =>
      subst sigma
      cases atEnd before rest <;> decide +kernel
    · rfl

theorem prefix_map_iff {f : Char → Char} :
    ∀ {part whole : List Char}, (∀ c ∈ part, ∀ d, f d = c ↔ d = c) →
      (part <+: whole.map f ↔ part <+: whole)
  | [], _, _ => by simp
  | _ :: _, [], _ => by simp
  | c :: part, d :: whole, kept => by
    rw [List.map_cons, List.cons_prefix_cons, List.cons_prefix_cons,
      prefix_map_iff fun c mem => kept c (List.mem_cons_of_mem _ mem)]
    have here := kept c List.mem_cons_self d
    rw [eq_comm, here, eq_comm]

/-- Characters that a map neither changes nor makes out of others are found as before. -/
theorem infix_map_iff {f : Char → Char} {part : List Char}
    (kept : ∀ c ∈ part, ∀ d, f d = c ↔ d = c) :
    ∀ whole : List Char, part <:+: whole.map f ↔ part <:+: whole
  | [] => by simp
  | d :: whole => by
    rw [List.map_cons, List.infix_cons_iff, List.infix_cons_iff, infix_map_iff kept whole,
      ← List.map_cons, prefix_map_iff kept]

theorem mergeSigmas_eq_iff {c : Char} (plain : c ≠ 'σ' ∧ c ≠ 'ς') (d : Char) :
    mergeSigmas d = c ↔ d = c := by
  unfold mergeSigmas
  split
  · next final =>
    rw [final]
    exact ⟨fun h => absurd h.symm plain.1, fun h => absurd h.symm plain.2⟩
  · rfl

theorem containsText_lowercaseInContext (atEnd : List Char → List Char → Bool) (text : String)
    {word : String} (plain : ∀ c ∈ word.toList, c ≠ 'σ' ∧ c ≠ 'ς') :
    containsText (lowercaseInContext atEnd text) word = containsText (lowercase text) word := by
  have kept : ∀ c ∈ word.toList, ∀ d, mergeSigmas d = c ↔ d = c :=
    fun c mem => mergeSigmas_eq_iff (plain c mem)
  have same := map_mergeSigmas_lowercaseFrom atEnd text.toList []
  rw [Bool.eq_iff_iff, containsText, containsText, containsRun_eq_true_iff_infix,
    containsRun_eq_true_iff_infix, lowercaseInContext, String.toList_ofList, toList_lowercase,
    ← infix_map_iff kept, same, infix_map_iff kept]

end TokenTariff.Text
