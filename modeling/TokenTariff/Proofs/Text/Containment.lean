import Mathlib.Data.List.Infix
import Mathlib.Data.String.Basic
import TokenTariff.Text.Containment
/-!
# Parts of a text

A part stays a part when the text around it grows. A word without points, behind a text that ends
in a point, is a part of what stands before the point or of what stands after it, never of both
(`containsText_append_of_point`).
-/

namespace TokenTariff.Text
set_option autoImplicit false

theorem containsText_refl (text : String) : containsText text text = true :=
  (containsText_iff _ _).2 ⟨"", "", by simp⟩

theorem containsText_append_left {whole part : String} (more : String)
    (h : containsText whole part = true) : containsText (more ++ whole) part = true := by
  obtain ⟨a, b, rfl⟩ := (containsText_iff _ _).1 h
  exact (containsText_iff _ _).2 ⟨more ++ a, b, by simp only [String.append_assoc]⟩

theorem containsText_append_right {whole part : String} (more : String)
    (h : containsText whole part = true) : containsText (whole ++ more) part = true := by
  obtain ⟨a, b, rfl⟩ := (containsText_iff _ _).1 h
  exact (containsText_iff _ _).2 ⟨a, b ++ more, by simp only [String.append_assoc]⟩

/-! ## Words behind a point -/

theorem containsRun_eq_true_iff_infix {part whole : List Char} :
    containsRun part whole = true ↔ part <:+: whole := by
  rw [containsRun_iff]
  exact exists₂_congr fun a b => eq_comm

theorem eq_nil_of_prefix_cons {part rest : List Char} {c : Char} (absent : c ∉ part)
    (h : part <+: c :: rest) : part = [] := by
  rcases List.prefix_cons_iff.1 h with rfl | ⟨_, rfl, -⟩
  · rfl
  · exact absurd List.mem_cons_self absent

theorem infix_append_cons_iff {part front rest : List Char} {c : Char} (absent : c ∉ part) :
    part <:+: front ++ c :: rest ↔ part <:+: front ∨ part <:+: rest := by
  constructor
  · intro h
    rcases List.infix_append_iff.1 h with h | h | ⟨l₁, l₂, rfl, suffix, pre⟩
    · exact .inl h
    · rcases List.infix_cons_iff.1 h with h | h
      · rw [eq_nil_of_prefix_cons absent h]
        exact .inr List.nil_infix
      · exact .inr h
    · have none : l₂ = [] :=
        eq_nil_of_prefix_cons (fun mem => absent (List.mem_append_right _ mem)) pre
      rw [none, List.append_nil]
      exact .inl suffix.isInfix
  · rintro (h | h)
    · exact h.trans (List.prefix_append _ _).isInfix
    · exact h.trans ((List.suffix_cons c rest).trans (List.suffix_append _ _)).isInfix

theorem containsText_append_of_point {start word : String} (rest : String)
    (ends : start.toList.getLast? = some '.') (plain : '.' ∉ word.toList)
    (absent : containsText start word = false) :
    containsText (start ++ rest) word = containsText rest word := by
  obtain ⟨front, split⟩ := List.getLast?_eq_some_iff.1 ends
  rw [containsText, split, Bool.eq_false_iff, ne_eq, containsRun_eq_true_iff_infix,
    infix_append_cons_iff plain, not_or] at absent
  rw [Bool.eq_iff_iff, containsText, containsText, String.toList_append, split, List.append_assoc,
    List.singleton_append, containsRun_eq_true_iff_infix, containsRun_eq_true_iff_infix,
    infix_append_cons_iff plain]
  exact or_iff_right absent.1

end TokenTariff.Text
