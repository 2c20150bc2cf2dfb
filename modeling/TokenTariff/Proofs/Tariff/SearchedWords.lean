import TokenTariff.Proofs.Dictionary
import TokenTariff.Proofs.Text.Lowercase
import TokenTariff.Tariff.Table
/-!
# Words in the names of models

A name in lower case is searched for the mark of a long context and for the families. No such word
has a sigma in it, so it does not matter which small sigma stands at the end of a word of the name
(`containsText_word_inContext`). Every model that is listed by name has its family in its name, so
in a table of a price list the rate for an hour in the cache is that of the family
(`Table.hourRate_ofRates`).
-/

namespace TokenTariff
set_option autoImplicit false

open Text

namespace ModelName

/-- The words that a name in lower case is searched for. -/
def words : List String :=
  longContextMark :: Family.all.map Family.word

theorem longContextMark_mem_words : longContextMark ∈ words :=
  List.mem_cons_self

theorem word_mem_words : ∀ family : Family, family.word ∈ words
  | .opus => by decide
  | .sonnet => by decide
  | .haiku => by decide

theorem containsText_word_inContext (atEnd : List Char → List Char → Bool) (name : String)
    {word : String} (mem : word ∈ words) :
    containsText (lowercaseInContext atEnd name) word = containsText (lowercase name) word := by
  have plain : ∀ word ∈ words, word.toList.all (fun c => c ≠ 'σ' ∧ c ≠ 'ς') = true := by
    decide +kernel
  refine containsText_lowercaseInContext atEnd name fun c memC => ?_
  exact of_decide_eq_true (List.all_eq_true.1 (plain word mem) c memC)

end ModelName

/-! ## Families -/

namespace Family

theorem ofModel?_of_mem_models : ∀ family : Family, ∀ model ∈ family.models,
    ofModel? model = some family
  | opus => by decide +kernel
  | sonnet => by decide +kernel
  | haiku => by decide +kernel

theorem ofModel?_congr {a b : String} (same : ∀ family : Family,
    containsText (lowercase a) family.word = containsText (lowercase b) family.word) :
    ofModel? a = ofModel? b := by
  unfold ofModel?
  exact congrArg (all.find? ·) (funext same)

end Family

/-! ## Rates for an hour in the cache -/

theorem exists_family_of_listed {model : String} {rate : Float}
    (listed : builtInHourRates.get? model = some rate) :
    ∃ family : Family, model ∈ family.models ∧ rate = family.hourRate := by
  rw [builtInHourRates, Dictionary.get?_ofList] at listed
  obtain ⟨before, after, split, -⟩ := lookup_reverse_eq_some_iff.1 listed
  have mem : (model, rate) ∈ before ++ (model, rate) :: after := by simp
  rw [← split, List.mem_flatMap] at mem
  obtain ⟨family, -, mem⟩ := mem
  obtain ⟨name, named, pair⟩ := List.mem_map.1 mem
  obtain ⟨rfl, rfl⟩ := Prod.mk.inj pair
  exact ⟨family, named, rfl⟩

theorem Table.hourRate_ofRates (published : Dictionary Rates) (model : String) :
    (ofRates published).hourRate model = ((Family.ofModel? model).map Family.hourRate).getD 0 := by
  have rates : (ofRates published).hourRates = builtInHourRates := rfl
  rw [hourRate, rates]
  cases listed : builtInHourRates.get? model with
  | none => exact Option.getD_none
  | some rate =>
    obtain ⟨family, mem, rfl⟩ := exists_family_of_listed listed
    rw [Family.ofModel?_of_mem_models family model mem, Option.map_some, Option.getD_some,
      Option.getD_some]

end TokenTariff
