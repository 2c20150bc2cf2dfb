import TokenTariff.Proofs.Text.Lowercase
/-!
# Small letters

Lower-casing a text once more changes nothing: a character that comes out of it is its own
lower-case form (`lowerChar_of_mem`). For the letters of the table this is a statement about runs.
The small letters of a run make a run again, and none of these meets a run of capital letters
(`small_isApart`), because it lies on one side of it or takes the places between its letters.

* `IsSmall`: the characters that lower-casing makes out of others.
-/

namespace TokenTariff.Text
set_option autoImplicit false

/-! ## Runs -/

namespace CaseRun

/-- The small letters of a run. -/
def small (run : CaseRun) : CaseRun :=
  { run with first := (run.first + run.shift).toNat, last := (run.last + run.shift).toNat }

/-- Whether a run ends before another one, begins after it, or has its letters in the places that
the other one leaves out. -/
def isApart (a b : CaseRun) : Bool :=
  -- There are many pairs of runs, so the comparisons are those that the kernel computes at once.
  a.last.blt b.first || b.last.blt a.first ||
    (a.first.beq a.last || a.step.beq 2) && b.step.beq 2 && ((a.first + b.first) % 2).beq 1

theorem holds_iff {run : CaseRun} {code : Nat} :
    run.holds code = true ↔
      run.first ≤ code ∧ code ≤ run.last ∧ (code - run.first) % run.step = 0 := by
  simp [holds, and_assoc]

theorem not_holds_of_isApart {a b : CaseRun} {code : Nat} (apart : a.isApart b = true)
    (held : a.holds code = true) : b.holds code = false := by
  obtain ⟨least, greatest, steps⟩ := holds_iff.1 held
  simp only [isApart, Bool.or_eq_true, Bool.and_eq_true, Nat.blt_eq, Nat.beq_eq] at apart
  refine Bool.eq_false_iff.2 fun held' => ?_
  obtain ⟨least', greatest', steps'⟩ := holds_iff.1 held'
  rcases apart with (before | after) | ⟨⟨single | second, second'⟩, odd⟩
  · omega
  · omega
  · rw [second'] at steps'
    omega
  · rw [second] at steps
    rw [second'] at steps'
    omega

theorem holds_small {run : CaseRun} {code : Nat} (least : 0 ≤ run.first + run.shift)
    (held : run.holds code = true) : run.small.holds (code + run.shift).toNat = true := by
  obtain ⟨first, last, steps⟩ := holds_iff.1 held
  have same : (code + run.shift).toNat - (run.first + run.shift).toNat = code - run.first := by
    omega
  refine holds_iff.2 ⟨?_, ?_, ?_⟩
  · show (run.first + run.shift).toNat ≤ (code + run.shift).toNat
    omega
  · show (code + run.shift).toNat ≤ (run.last + run.shift).toNat
    omega
  · show ((code + run.shift).toNat - (run.first + run.shift).toNat) % run.step = 0
    rw [same, steps]

/-- The code points of a run are letters of ASCII, or code points of characters beyond it other than
the capital I with a dot above. -/
def IsPlain (run : CaseRun) : Prop :=
  (0x61 ≤ run.first ∧ run.last ≤ 0x7A ∨ 0x80 ≤ run.first) ∧
    (run.last < 0x130 ∨ 0x130 < run.first) ∧
    (run.last < 0xD800 ∨ 0xDFFF < run.first ∧ run.last < 0x110000)

instance (run : CaseRun) : Decidable run.IsPlain :=
  inferInstanceAs (Decidable (_ ∧ _ ∧ _))

theorem IsPlain.isValidChar {run : CaseRun} (plain : run.IsPlain) {code : Nat}
    (held : run.holds code = true) : code.isValidChar := by
  obtain ⟨first, last, -⟩ := holds_iff.1 held
  rcases plain.2.2 with low | ⟨high, below⟩
  · exact .inl (by omega)
  · exact .inr ⟨by omega, by omega⟩

end CaseRun

theorem small_isApart : ∀ run ∈ caseRuns, caseRuns.all (run.small.isApart ·) = true := by
  decide +kernel

theorem small_isPlain : ∀ run ∈ caseRuns, 0 ≤ run.first + run.shift ∧ run.small.IsPlain := by
  decide +kernel

/-! ## Characters -/

/-- A letter of ASCII or a character beyond it that is its own lower-case form. -/
def IsSmall (c : Char) : Prop :=
  lowerChar c = [c] ∧ ('a' ≤ c ∧ c ≤ 'z' ∨ 0x80 ≤ c.toNat)

theorem lowerChar_letter {c : Char} (least : 'a' ≤ c) (greatest : c ≤ 'z') :
    lowerChar c = [c] := by
  have above : ¬ (c ≤ 'Z') := fun h => absurd (le_trans least h) (by decide)
  have below : c.toNat ≤ 'z'.toNat := greatest
  have ascii : c.toNat < 0x80 := lt_of_le_of_lt below (by decide)
  rw [lowerChar, if_pos ascii, if_neg fun upper => above upper.2]

/-- A code point that no run of capital letters holds. -/
theorem lowerChar_of_not_held {c : Char} (beyond : 0x80 ≤ c.toNat) (plain : c.toNat ≠ 0x130)
    (none : ∀ run ∈ caseRuns, run.holds c.toNat = false) : lowerChar c = [c] := by
  have notFound : caseRuns.find? (·.holds c.toNat) = .none :=
    List.find?_eq_none.2 fun run mem held => by simp [none run mem] at held
  rw [lowerChar, if_neg (by omega), lowerBeyondAscii, if_neg plain]
  simp only [notFound]

/-- What a capital letter of a run is taken to lies in the run of the small ones, so in no run of
capital letters. -/
theorem isSmall_of_held {run : CaseRun} (mem : run ∈ caseRuns) {c : Char}
    (held : run.holds c.toNat = true) : IsSmall (Char.ofNat (c.toNat + run.shift).toNat) := by
  obtain ⟨least, plain⟩ := small_isPlain run mem
  have held := CaseRun.holds_small least held
  generalize (c.toNat + run.shift).toNat = code at held ⊢
  obtain ⟨first, last, -⟩ := CaseRun.holds_iff.1 held
  have code_eq : (Char.ofNat code).toNat = code := by
    rw [Char.ofNat, dif_pos (plain.isValidChar held)]
    rfl
  have none : ∀ other ∈ caseRuns, other.holds code = false := fun other mem' =>
    CaseRun.not_holds_of_isApart (List.all_eq_true.1 (small_isApart run mem) other mem') held
  rcases plain.1 with ⟨fromA, toZ⟩ | beyond
  · have least : 'a' ≤ Char.ofNat code := by
      show 'a'.toNat ≤ (Char.ofNat code).toNat
      rw [code_eq]
      exact fromA.trans first
    have greatest : Char.ofNat code ≤ 'z' := by
      show (Char.ofNat code).toNat ≤ 'z'.toNat
      rw [code_eq]
      exact last.trans toZ
    exact ⟨lowerChar_letter least greatest, .inl ⟨least, greatest⟩⟩
  · have beyond : 0x80 ≤ (Char.ofNat code).toNat := by omega
    have noDot : (Char.ofNat code).toNat ≠ 0x130 := by
      have around := plain.2.1
      omega
    refine ⟨lowerChar_of_not_held beyond noDot fun other mem' => ?_, .inr beyond⟩
    rw [code_eq]
    exact none other mem'

/-- A character is its own lower-case form, or that form consists of small letters. -/
theorem lowerChar_cases (c : Char) : lowerChar c = [c] ∨ ∀ d ∈ lowerChar c, IsSmall d := by
  by_cases ascii : c.toNat < 0x80
  · rw [lowerChar, if_pos ascii]
    by_cases upper : 'A' ≤ c ∧ c ≤ 'Z'
    · have capitals : ⟨0x41, 0x5A, 1, 32⟩ ∈ caseRuns := List.mem_cons_self
      have held : CaseRun.holds ⟨0x41, 0x5A, 1, 32⟩ c.toNat = true :=
        CaseRun.holds_iff.2 ⟨upper.1, upper.2, Nat.mod_one _⟩
      have small := isSmall_of_held capitals held
      right
      intro d mem
      rw [if_pos upper, List.mem_singleton] at mem
      rw [mem]
      exact small
    · rw [if_neg upper]
      exact .inl rfl
  rw [lowerChar, if_neg ascii, lowerBeyondAscii]
  by_cases dotted : c.toNat = 0x130
  · rw [if_pos dotted]
    right
    have letter : IsSmall 'i' := ⟨by decide, .inl (by decide)⟩
    have dot : IsSmall '\u0307' := ⟨by decide +kernel, .inr (by decide)⟩
    simp only [List.mem_cons, List.not_mem_nil, or_false]
    rintro d (rfl | rfl)
    · exact letter
    · exact dot
  rw [if_neg dotted]
  cases found : caseRuns.find? (·.holds c.toNat) with
  | none => exact .inl rfl
  | some run =>
    right
    intro d mem
    rw [List.mem_singleton.1 mem]
    exact isSmall_of_held (List.mem_of_find?_eq_some found) (by simpa using List.find?_some found)

/-- A character that comes out of lower-casing is its own lower-case form. -/
theorem lowerChar_of_mem {c d : Char} (h : d ∈ lowerChar c) : lowerChar d = [d] := by
  rcases lowerChar_cases c with same | small
  · have e := h
    rw [same, List.mem_singleton] at e
    rw [e, same]
  · exact (small d h).1

end TokenTariff.Text
