import TokenTariff.Proofs.Tariff.OwnRates
/-!
# Rates for an hour in the cache

A table lists the rates for an hour in the cache of some models by name, and all other names are
searched for the words of the families, in lower case. Both ways lead to the same rate: a name that
is listed has the word of its family in it, and none that is searched for earlier. So a listed name
and another spelling of it in capitals cost the same, and a table that lists nothing has the same
rates as one that was built from a price list.

* `Family.rateIn`: the rule of the families, as a function of a name in lower case;
* `Table.hourRate_is_of_family`: the rates of all tables that can be made go by this rule alone.
-/

namespace TokenTariff
set_option autoImplicit false

open ModelName Text

namespace Family

/-- The rate for an hour of a name in lower case, by the first family whose word it contains. -/
def rateIn (name : String) : Float :=
  if containsText name "opus" then 0.00003
  else if containsText name "sonnet" then 0.000006
  else if containsText name "haiku" then 0.0000016
  else 0

theorem rateIn_inContext (atEnd : List Char → List Char → Bool) (model : String) :
    rateIn (lowercaseInContext atEnd model) = ((ofModel? model).map hourRate).getD 0 := by
  have opus := containsText_word_inContext atEnd model (word_mem_words .opus)
  have sonnet := containsText_word_inContext atEnd model (word_mem_words .sonnet)
  have haiku := containsText_word_inContext atEnd model (word_mem_words .haiku)
  simp only [word] at opus sonnet haiku
  simp only [rateIn, opus, sonnet, haiku, ofModel?, all, List.find?_cons, List.find?_nil, word]
  cases containsText (lowercase model) "opus" with
  | true => rfl
  | false =>
  cases containsText (lowercase model) "sonnet" with
  | true => rfl
  | false =>
  cases containsText (lowercase model) "haiku" with
  | true => rfl
  | false => rfl

end Family

namespace Table
variable {table : Table}

/-- Whichever rates a table lists by name, the rate of any name is that of the first family whose
word its lower-case form contains, or else zero. So it is the rate in a table that lists none, and
names with one lower-case form have one rate. -/
theorem hourRate_is_of_family (built : table.IsBuilt) (model : String) :
    (∀ atEnd, table.hourRate model = Family.rateIn (lowercaseInContext atEnd model)) ∧
    table.hourRate model = empty.hourRate model ∧
    ∀ atEnd other, lowercaseInContext atEnd other = lowercaseInContext atEnd model →
      table.hourRate other = table.hourRate model := by
  have rule (name : String) (atEnd) :
      table.hourRate name = Family.rateIn (lowercaseInContext atEnd name) := by
    rw [built.hourRate_eq, Family.rateIn_inContext]
  refine ⟨rule model, hourRate_congr .empty built model, fun atEnd other same => ?_⟩
  rw [rule other atEnd, rule model atEnd, same]

/-- A listed name, the same name in capitals, and a name with the words of two families. -/
theorem hourRate_is_of_family_spellings : ∃ table,
    read (Bytes.ofText "\x7b\"gpt-5\":\x7b\x7d\x7d") = .ok table ∧
      table.hourRate "claude-3-opus" = 0.00003 ∧ table.hourRate "CLAUDE-3-OPUS" = 0.00003 ∧
      table.hourRate "haiku-sonnet" = 0.000006 ∧ table.hourRate "gpt-5" = 0 := by
  obtain ⟨table, accepted⟩ : ∃ table, read (Bytes.ofText "\x7b\"gpt-5\":\x7b\x7d\x7d") = .ok table := by
    have accepted : (read (Bytes.ofText "\x7b\"gpt-5\":\x7b\x7d\x7d")).toOption.isSome = true := by
      decide +kernel
    obtain ⟨table, found⟩ := Option.isSome_iff_exists.1 accepted
    exact ⟨table, toOption_eq_some_iff.1 found⟩
  have built : table.IsBuilt := .of_read accepted
  obtain ⟨listed, -, spellings⟩ := hourRate_is_of_family built "claude-3-opus"
  have opus : table.hourRate "claude-3-opus" = 0.00003 :=
    (listed fun _ _ => false).trans (by decide +kernel)
  have capitals := spellings (fun _ _ => false) "CLAUDE-3-OPUS" (by decide +kernel)
  have both := (hourRate_is_of_family built "haiku-sonnet").1 fun _ _ => false
  have neither := (hourRate_is_of_family built "gpt-5").1 fun _ _ => false
  exact ⟨table, accepted, opus, capitals.trans opus, both.trans (by decide +kernel),
    neither.trans (by decide +kernel)⟩

end Table

end TokenTariff
