import TokenTariff.Proofs.Tariff.LongContexts
/-!
# Tables with other tiers

The rates for long contexts enter a cost in one place: input and output of a request with a long
context. So with any two lists of tiers the items for the cache are the same, and all of the cost is
unless the name asks for a long context and the context is larger than the threshold
(`Table.cost_of_other_tiers`). A list of tiers is read by the names in it: what a later tier of the
same name replaces may be left out, and where no name comes twice, the order does not matter.

* `lastOnly`: a list of named values without those that are replaced;
* `Breakdown.cacheItems`: the items of a cost that no tier enters.
-/

namespace TokenTariff
set_option autoImplicit false

/-! ## Values that are replaced -/

section
variable {α : Type} {items : List (String × α)} {name : String} {value : α}

/-- A list of named values without those that are followed by another of the same name. -/
def lastOnly (items : List (String × α)) : List (String × α) :=
  items.pwFilter (·.1 ≠ ·.1)

theorem distinct_lastOnly (items : List (String × α)) : (lastOnly items).Pairwise (·.1 ≠ ·.1) :=
  List.pairwise_pwFilter items

theorem lastUnder_cons_iff {first : String × α} {rest : List (String × α)} :
    LastUnder (first :: rest) name value ↔
      first = (name, value) ∧ (∀ item ∈ rest, item.1 ≠ name) ∨ LastUnder rest name value := by
  constructor
  · rintro ⟨before, after, split, other⟩
    cases before with
    | nil =>
      obtain ⟨rfl, rfl⟩ := List.cons.inj split
      exact .inl ⟨rfl, other⟩
    | cons _ before =>
      obtain ⟨rfl, rfl⟩ := List.cons.inj split
      exact .inr ⟨before, after, rfl, other⟩
  · rintro (⟨rfl, other⟩ | ⟨before, after, rfl, other⟩)
    · exact ⟨[], rest, rfl, other⟩
    · exact ⟨first :: before, after, rfl, other⟩

/-- A value is followed by none of its name in the list that is left if it was in the whole. -/
theorem forall_mem_lastOnly_iff {first : String × α} {rest : List (String × α)} :
    (∀ item ∈ lastOnly rest, first.1 ≠ item.1) ↔ ∀ item ∈ rest, first.1 ≠ item.1 := by
  refine List.forall_mem_pwFilter (fun {x y z} differ => ?_) first rest
  by_cases same : x.1 = y.1
  · exact .inr (same ▸ differ)
  · exact .inl same

/-- What is left are the values that stand last under their names. -/
theorem mem_lastOnly_iff : (name, value) ∈ lastOnly items ↔ LastUnder items name value := by
  induction items with
  | nil => simp [lastOnly, LastUnder]
  | cons first rest ih =>
    rw [lastUnder_cons_iff, ← ih]
    by_cases last : ∀ item ∈ lastOnly rest, first.1 ≠ item.1
    · have kept : lastOnly (first :: rest) = first :: lastOnly rest :=
        List.pwFilter_cons_of_pos last
      rw [kept, List.mem_cons, eq_comm (a := first)]
      refine or_congr_left ⟨fun same => ⟨same, fun item mem => ?_⟩, And.left⟩
      have differ := forall_mem_lastOnly_iff.1 last item mem
      rw [← same] at differ
      exact differ.symm
    · have dropped : lastOnly (first :: rest) = lastOnly rest := List.pwFilter_cons_of_neg last
      rw [dropped, or_iff_right]
      rintro ⟨rfl, other⟩
      exact last (forall_mem_lastOnly_iff.2 fun item mem => (other item mem).symm)

end

namespace Dictionary
variable {α : Type}

/-- Values that are replaced leave nothing behind. -/
theorem ofList_lastOnly (items : List (String × α)) : ofList (lastOnly items) = ofList items := by
  refine ext_get? fun name => Option.ext fun value => ?_
  have distinct : (lastOnly items).reverse.Pairwise (·.1 ≠ ·.1) :=
    List.pairwise_reverse.2 ((distinct_lastOnly items).imp Ne.symm)
  rw [get?_ofList, get?_ofList, lookup_eq_some_iff_mem distinct, List.mem_reverse,
    mem_lastOnly_iff, lookup_reverse_eq_some_iff]

end Dictionary

/-! ## Costs -/

/-- The items of a cost for the cache: their two parts and sums. -/
def Breakdown.cacheItems (cost : Breakdown) : List Float :=
  [cost.cacheWrite, cost.cacheRead, cost.fiveMinuteWrite, cost.oneHourWrite]

namespace Table
open ModelName Text

variable {table other : Table} {model : String} {usage : Usage}

theorem tierOf_eq_none (short : asksForLongContext model = false ∨ usage.totalInput.val ≤ 200000) :
    table.tierOf model usage = none := by
  rw [tierOf, if_neg]
  rw [Bool.and_eq_true, decide_eq_true_eq, longContextThreshold]
  rintro ⟨asks, large⟩
  rcases short with plain | small
  · rw [asks] at plain
    cases plain
  · omega

theorem cacheItems_itemise (rates : Rates) (tier tier' : Option Tier) (hourRate : Float)
    (isListed : Bool) (usage : Usage) :
    (itemise rates tier hourRate isListed usage).cacheItems =
      (itemise rates tier' hourRate isListed usage).cacheItems := by
  simp only [Breakdown.cacheItems, itemise]

theorem cost_withTiers (table : Table) (tiers : List (String × Tier)) (model : String)
    (usage : Usage) :
    (table.withTiers tiers).cost model usage =
      match table.resolve model with
      | some found =>
        itemise found.rates ((table.withTiers tiers).tierOf model usage) (table.hourRate model) true
          usage
      | none =>
        if asksForLongContext model then
          itemise {} ((table.withTiers tiers).tierOf model usage) (table.hourRate model) false usage
        else {} := rfl

theorem cacheItems_cost_withTiers (table : Table) (tiers tiers' : List (String × Tier))
    (model : String) (usage : Usage) :
    ((table.withTiers tiers).cost model usage).cacheItems =
      ((table.withTiers tiers').cost model usage).cacheItems := by
  rw [cost_withTiers, cost_withTiers]
  cases table.resolve model with
  | some found => exact cacheItems_itemise ..
  | none =>
    simp only
    split
    · exact cacheItems_itemise ..
    · rfl

theorem cost_withTiers_congr {tiers tiers' : List (String × Tier)}
    (same : (table.withTiers tiers).tierOf model usage = (table.withTiers tiers').tierOf model usage) :
    (table.withTiers tiers).cost model usage = (table.withTiers tiers').cost model usage := by
  rw [cost_withTiers, cost_withTiers, same]

/-- With any two lists of tiers a request has the same items for the cache; and all of its cost is the
same if the name of its model in lower case does not contain the mark of a long context, or if its
context is not larger than the threshold. Of a list of tiers only the last one under each name counts,
so the list that keeps no others gives the same costs; and where no name comes twice, so does the list
in any order. -/
theorem cost_of_other_tiers (table : Table) (tiers tiers' : List (String × Tier)) (model : String)
    (usage : Usage) :
    ((table.withTiers tiers).cost model usage).cacheItems =
        ((table.withTiers tiers').cost model usage).cacheItems ∧
    (∀ atEnd, containsText (lowercaseInContext atEnd model) "[1m]" = false ∨
        usage.totalInput.val ≤ 200000 →
      (table.withTiers tiers).cost model usage = (table.withTiers tiers').cost model usage) ∧
    ((∀ name tier, (name, tier) ∈ lastOnly tiers ↔ LastUnder tiers name tier) ∧
      (lastOnly tiers).Sublist tiers ∧ (lastOnly tiers).Pairwise (·.1 ≠ ·.1) ∧
      (table.withTiers (lastOnly tiers)).cost model usage =
        (table.withTiers tiers).cost model usage) ∧
    ((tiers.map (·.1)).Nodup → tiers'.Perm tiers →
      (table.withTiers tiers').cost model usage = (table.withTiers tiers).cost model usage) := by
  refine ⟨cacheItems_cost_withTiers .., fun atEnd short => ?_, ⟨fun name tier => mem_lastOnly_iff,
    List.pwFilter_sublist tiers, distinct_lastOnly tiers, ?_⟩, fun distinct perm => ?_⟩
  · have asks : containsText (lowercaseInContext atEnd model) "[1m]" = asksForLongContext model :=
      containsText_word_inContext atEnd model longContextMark_mem_words
    rw [asks] at short
    exact cost_withTiers_congr ((tierOf_eq_none short).trans (tierOf_eq_none short).symm)
  · rw [withTiers, withTiers, Dictionary.ofList_lastOnly]
  · have same := Dictionary.ofList_perm perm.symm distinct
    rw [withTiers, withTiers, same]

/-- Two tiers in either order, a name that does not ask for a long context, and a small context. -/
theorem cost_of_other_tiers_two_orders :
    let tiers : List (String × Tier) := [("b[1m]", ⟨3, 4⟩), ("a[1m]", ⟨1, 2⟩)]
    let usage := { Usage.zero with input := .clamp 300000 }
    (empty.withTiers tiers.reverse).cost "b[1m]" usage =
        (empty.withTiers tiers).cost "b[1m]" usage ∧
      (empty.withTiers tiers).cost "opus" usage = (empty.withTiers []).cost "opus" usage ∧
      (empty.withTiers tiers).cost "b[1m]" .zero = (empty.withTiers []).cost "b[1m]" .zero := by
  intro tiers usage
  have order := (cost_of_other_tiers empty tiers tiers.reverse "b[1m]" usage).2.2.2
    (by decide) tiers.reverse_perm
  have plain := (cost_of_other_tiers empty tiers [] "opus" usage).2.1 (fun _ _ => false)
    (.inl (by decide +kernel))
  have small := (cost_of_other_tiers empty tiers [] "b[1m]" .zero).2.1 (fun _ _ => false)
    (.inr (by decide))
  exact ⟨order, plain, small⟩

end Table

end TokenTariff
