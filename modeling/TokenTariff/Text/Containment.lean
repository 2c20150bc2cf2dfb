/-!
# Text inside text

When a text contains another one as a run of consecutive characters, and what is left of a text
after its beginning has been taken off.

* `containsText_iff`: a text contains `part` exactly when it is `part` between two other texts.
-/

namespace TokenTariff.Text
set_option autoImplicit false

/-- Whether `part` is a run of consecutive characters of a list. -/
def containsRun (part : List Char) : List Char → Bool
  | [] => part.isEmpty
  | c :: rest => part.isPrefixOf (c :: rest) || containsRun part rest

/-- Whether `part` is a run of consecutive characters of `whole`. -/
def containsText (whole part : String) : Bool :=
  containsRun part.toList whole.toList

/-- The characters after those that match `start` one by one. -/
def dropMatching? (same : Char → Char → Bool) : (start : List Char) → List Char → Option (List Char)
  | [], rest => some rest
  | _ :: _, [] => none
  | s :: start, c :: rest => if same s c then dropMatching? same start rest else none

/-- What follows `start` in a text that begins with it. -/
def afterStart? (start text : String) : Option String :=
  (dropMatching? (· == ·) start.toList text.toList).map String.ofList

/-- What follows `start` in a text that begins with it, the case of ASCII letters ignored. -/
def afterStartAnyCase? (start text : String) : Option String :=
  (dropMatching? (fun s c => s.toLower == c.toLower) start.toList text.toList).map String.ofList

theorem containsRun_iff (part : List Char) :
    ∀ whole : List Char, containsRun part whole = true ↔ ∃ a b, whole = a ++ part ++ b
  | [] => by simp [containsRun, List.isEmpty_iff]
  | c :: rest => by
    simp only [containsRun, Bool.or_eq_true, containsRun_iff part rest]
    constructor
    · rintro (h | ⟨a, b, rfl⟩)
      · obtain ⟨b, h⟩ := List.isPrefixOf_iff_prefix.1 h
        exact ⟨[], b, by simp [h]⟩
      · exact ⟨c :: a, b, rfl⟩
    · rintro ⟨a, b, h⟩
      cases a with
      | nil => exact .inl (List.isPrefixOf_iff_prefix.2 ⟨b, by simpa using h.symm⟩)
      | cons d a =>
        simp only [List.cons_append, List.cons.injEq] at h
        exact .inr ⟨a, b, h.2⟩

theorem containsText_iff (whole part : String) :
    containsText whole part = true ↔ ∃ a b, whole = a ++ part ++ b := by
  rw [containsText, containsRun_iff]
  constructor
  · rintro ⟨a, b, h⟩
    exact ⟨String.ofList a, String.ofList b, String.toList_inj.1 (by simp [h])⟩
  · rintro ⟨a, b, rfl⟩
    exact ⟨a.toList, b.toList, by simp⟩

end TokenTariff.Text
