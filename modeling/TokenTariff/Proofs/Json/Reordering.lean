import Mathlib.Data.List.Perm.Basic
import TokenTariff.Proofs.Json.Documents
/-!
# The order of the members of an object

The text of a list or an object is made of the texts of its parts, each with the blanks around it,
with commas between them. So the parts may change places, and the text is still that of a list or
an object, with its parts in the new order.

* `enclosed_iff_spaced`: composites as spaced parts with commas between them;
* `whole_objectMembers_reorder`: documents whose members change places.
-/

namespace TokenTariff.Json
set_option autoImplicit false

section
variable {α : Type} {Part : Bytes → α → Prop}

theorem Sequence.exists_spaced {text : Bytes} {parts : List α} (h : Sequence Part text parts) :
    ∀ {blanks}, IsBlanks blanks →
      ∃ texts, List.Forall₂ (Spaced Part) texts parts ∧
        blanks ++ text = [comma].intercalate texts := by
  induction h with
  | @last text after part isPart blank' =>
    intro blanks blank
    refine ⟨[blanks ++ (text ++ after)], .cons ⟨_, _, _, blank, blank', isPart, rfl⟩ .nil, ?_⟩
    rw [List.intercalate_singleton]
  | @more text after before rest part parts isPart blank' blank'' tail ih =>
    intro blanks blank
    obtain ⟨texts, spaced, split⟩ := ih blank''
    refine ⟨(blanks ++ (text ++ after)) :: texts,
      .cons ⟨_, _, _, blank, blank', isPart, rfl⟩ spaced, ?_⟩
    have nonempty : texts ≠ [] := by
      rintro rfl
      cases spaced
      cases tail
    rw [List.intercalate_cons_of_ne_nil nonempty, ← split]
    simp

theorem sequence_of_spaced {part : α} :
    ∀ {text : Bytes} {texts : List Bytes} {parts : List α}, Spaced Part text part →
      List.Forall₂ (Spaced Part) texts parts →
      ∃ blanks text', IsBlanks blanks ∧ Sequence Part text' (part :: parts) ∧
        [comma].intercalate (text :: texts) = blanks ++ text' := by
  intro text texts parts first rest
  induction rest generalizing part text with
  | nil =>
    obtain ⟨before, inner, after, blank, blank', isPart, rfl⟩ := first
    exact ⟨before, inner ++ after, blank, .last isPart blank', List.intercalate_singleton⟩
  | cons second rest ih =>
    obtain ⟨before, inner, after, blank, blank', isPart, rfl⟩ := first
    obtain ⟨blanks, text', blank'', sequence, split⟩ := ih second
    refine ⟨before, _, blank, .more isPart blank' blank'' sequence, ?_⟩
    rw [List.intercalate_cons_cons, split]
    simp

/-- The text of a list or an object is made of spaced parts with commas between them. -/
theorem enclosed_iff_spaced {kind : Composite} {text : Bytes} {parts : List α} :
    Enclosed kind Part text parts ↔
      ∃ blanks texts, IsBlanks blanks ∧ List.Forall₂ (Spaced Part) texts parts ∧
        text = kind.opening :: (blanks ++ ([comma].intercalate texts ++ [kind.closing])) := by
  constructor
  · intro h
    cases h with
    | @empty blanks blank => exact ⟨blanks, [], blank, .nil, rfl⟩
    | filled blank sequence =>
      obtain ⟨texts, spaced, split⟩ := sequence.exists_spaced blank
      refine ⟨[], texts, .nil, spaced, ?_⟩
      rw [← split]
      simp
  · rintro ⟨blanks, texts, blank, spaced, rfl⟩
    cases spaced with
    | nil => exact .empty blank
    | cons first rest =>
      obtain ⟨blanks', text, blank', sequence, split⟩ := sequence_of_spaced first rest
      have filled : Enclosed kind Part _ _ := .filled (blank.append blank') sequence
      rw [split]
      simpa using filled

end

/-- The members of a document may change places. -/
theorem whole_objectMembers_reorder {document : Bytes} {members : List (String × Value)}
    (h : whole objectMembers document = .ok members) :
    ∃ before texts after, document = before ++ ([comma].intercalate texts ++ after) ∧
      List.Forall₂ (Spaced (MemberText (ValueText IsEmbedded memberDepth))) texts members ∧
      ∀ texts', texts'.Perm texts → ∃ members', members'.Perm members ∧
        whole objectMembers (before ++ ([comma].intercalate texts' ++ after)) = .ok members' := by
  obtain ⟨before, text, after, blank, blank', isText, rfl⟩ :=
    takes_objectMembers.whole_eq_ok_iff.1 h
  obtain ⟨blanks, texts, inside, spaced, rfl⟩ := enclosed_iff_spaced.1 isText
  refine ⟨before ++ openObject :: blanks, texts, closeObject :: after, ?_, spaced, ?_⟩
  · simp [Composite.opening, Composite.closing]
  · intro texts' perm
    obtain ⟨members', spaced', perm'⟩ := List.perm_comp_forall₂ perm spaced
    refine ⟨members', perm', takes_objectMembers.whole_eq_ok_iff.2 ?_⟩
    refine ⟨before, _, after, blank, blank', enclosed_iff_spaced.2 ⟨_, _, inside, spaced', rfl⟩, ?_⟩
    simp [Composite.opening, Composite.closing]

end TokenTariff.Json
