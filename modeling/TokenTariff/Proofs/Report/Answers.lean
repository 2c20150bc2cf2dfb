import TokenTariff.Proofs.Json.ValuesReadBack
import TokenTariff.Proofs.Tariff.BreakdownTexts
import TokenTariff.Proofs.Tariff.UsageTexts
import TokenTariff.Report.Answers
/-!
# Answers are read back

What the program prints as JSON is the text of one object, whatever the names of models are and
whatever is charged. The usage in it is read as the usage that was given, and the model and its key
are the strings that were given.

* `Usage.readBack_toJson`, `Breakdown.member?_word`: the parts of an answer;
* `Report.answers_read_back`: the cost of a request, and what a name means.
-/

namespace TokenTariff
set_option autoImplicit false

open Json

/-! ## Usage -/

theorem TokenCount.isScalar_toJson (n : TokenCount) : n.toJson.IsScalar :=
  ⟨n.least, n.greatest.trans (by decide)⟩

theorem TokenCount.readBack_toJson (n : TokenCount) : n.toJson.readBack = n.toJson := by
  rw [toJson, Value.readBack]

section
variable (order : MemberOrder) {depth : Nat}

theorem CacheWrites.fits_toJson (w : CacheWrites) : (w.toJson order).Fits (depth + 1) := by
  refine fits_object order (by simp [embeddingName]) ?_
  simp only [List.forall_mem_cons]
  exact ⟨w.fiveMinutes.isScalar_toJson.fits _, w.oneHour.isScalar_toJson.fits _,
    List.forall_mem_nil _⟩

theorem CacheWrites.readBack_toJson (w : CacheWrites) :
    (w.toJson order).readBack = w.toJson order := by
  refine readBack_object order ?_
  simp [TokenCount.readBack_toJson]

theorem Usage.fits_toJson (u : Usage) : (u.toJson order).Fits (depth + 2) := by
  refine fits_object order (by simp [embeddingName]) ?_
  simp only [List.cons_append, List.forall_mem_cons]
  refine ⟨u.input.isScalar_toJson.fits _, u.output.isScalar_toJson.fits _,
    u.cacheWrite.isScalar_toJson.fits _, u.cacheRead.isScalar_toJson.fits _, fun member mem => ?_⟩
  obtain ⟨writes, -, rfl⟩ := List.mem_map.1 mem
  exact writes.fits_toJson order

theorem Usage.readBack_toJson (u : Usage) :
    (u.toJson order).readBack = u.toJson order := by
  refine readBack_object order ?_
  cases u.known <;> simp [TokenCount.readBack_toJson, CacheWrites.readBack_toJson]

/-! ## Costs -/

theorem isScalar_amountJson (x : Float) : (amountJson x).IsScalar :=
  trivial

theorem Breakdown.fits_toJson (b : Breakdown) : (b.toJson order).Fits (depth + 1) := by
  have amount (x : Float) : (amountJson x).Fits depth := (isScalar_amountJson x).fits depth
  have word (w : Bool) : (Value.boolean w).Fits depth := (Value.isScalar_boolean w).fits depth
  refine fits_object order (by simp [embeddingName]) ?_
  simp only [List.forall_mem_cons]
  exact ⟨amount _, amount _, amount _, amount _, amount _, amount _, amount _, word _, word _,
    List.forall_mem_nil _⟩

theorem Breakdown.member?_word (b : Breakdown) :
    (b.toJson order).readBack.member? "has_pricing" = some (.boolean b.hasPricing) ∧
      (b.toJson order).readBack.member? "is_long_context" = some (.boolean b.isLongContext) := by
  have distinct : b.members.Pairwise (·.1 ≠ ·.1) := by simp [Breakdown.members]
  have priced : ("has_pricing", .boolean b.hasPricing) ∈ b.members := by simp [Breakdown.members]
  have long : ("is_long_context", .boolean b.isLongContext) ∈ b.members := by
    simp [Breakdown.members]
  exact ⟨member?_readBack_object order distinct priced, member?_readBack_object order distinct long⟩

theorem Rates.fits_toJson (r : Rates) : r.toJson.Fits (depth + 1) := by
  refine fits_object .byName (by simp [Rates.members, embeddingName]) fun member mem => ?_
  obtain ⟨rate, -, rfl⟩ := List.mem_map.1 mem
  exact (isScalar_amountJson rate.2).fits depth

end

namespace Report

/-- What is read of an answer whose members are in the order of their names. -/
theorem whole_answer {members sorted : List (String × Value)}
    (sorted_eq : sortMembers members = sorted) (fits : ∀ member ∈ sorted, member.2.Fits memberDepth) :
    whole objectMembers (Bytes.ofText (pretty 0 (MemberOrder.byName.object members))) =
      .ok (Value.readBackMembers sorted) := by
  rw [MemberOrder.object, sorted_eq]
  exact objectMembers_written (.lines 0) fits

theorem whole_costJson (model : String) (usage : Usage) (cost : Breakdown) :
    whole objectMembers (Bytes.ofText (costJson model usage cost)) =
      .ok [("cost", (cost.toJson .byName).readBack), ("model", .string model),
        ("usage", usage.toJson .byName)] := by
  have sorted_eq : sortMembers [("model", .string model), ("usage", usage.toJson .byName),
      ("cost", cost.toJson .byName)] = [("cost", cost.toJson .byName), ("model", .string model),
        ("usage", usage.toJson .byName)] := by
    simp [sortMembers, List.mergeSort]
  rw [costJson, whole_answer sorted_eq]
  · simp only [Value.readBackMembers, usage.readBack_toJson, Value.readBack]
  · simp only [List.forall_mem_cons]
    exact ⟨cost.fits_toJson .byName, trivial, usage.fits_toJson .byName, List.forall_mem_nil _⟩

theorem whole_resolutionJson (model : String) (found : Option Resolved) :
    whole objectMembers (Bytes.ofText (resolutionJson model found)) =
      .ok (match found with
        | some hit => [("found", .boolean true), ("key", .string hit.key), ("model", .string model),
            ("pricing", hit.rates.toJson.readBack)]
        | none => [("found", .boolean false), ("model", .string model)]) := by
  cases found with
  | none =>
    have sorted_eq : sortMembers ([("model", .string model), ("found", .boolean false)] ++ []) =
        [("found", .boolean false), ("model", .string model)] := by
      simp [sortMembers, List.mergeSort]
    refine (whole_answer sorted_eq ?_).trans ?_
    · simp only [List.forall_mem_cons]
      exact ⟨trivial, trivial, List.forall_mem_nil _⟩
    · simp only [Value.readBackMembers, Value.readBack]
  | some hit =>
    have sorted_eq : sortMembers ([("model", .string model), ("found", .boolean true)] ++
        [("key", .string hit.key), ("pricing", hit.rates.toJson)]) =
          [("found", .boolean true), ("key", .string hit.key), ("model", .string model),
            ("pricing", hit.rates.toJson)] := by
      simp [sortMembers, List.mergeSort]
    refine (whole_answer sorted_eq ?_).trans ?_
    · simp only [List.forall_mem_cons]
      exact ⟨trivial, trivial, trivial, hit.rates.fits_toJson, List.forall_mem_nil _⟩
    · simp only [Value.readBackMembers, Value.readBack]

/-- What is printed of the cost of a request is an object with the name of the model, the usage and
the cost. What is printed of the model that a name means is an object with the name, whether there
is such a model, and if so its key and its rates. -/
theorem answers_read_back :
    (∀ (model : String) (usage : Usage) (cost : Breakdown), ∃ charged told,
      whole objectMembers (Bytes.ofText (costJson model usage cost)) =
        .ok [("cost", charged), ("model", .string model), ("usage", told)] ∧
      (∀ style : Style, Usage.read (Bytes.ofText (style.text told)) = .ok usage) ∧
      charged.member? "has_pricing" = some (.boolean cost.hasPricing) ∧
      charged.member? "is_long_context" = some (.boolean cost.isLongContext)) ∧
    ∀ (table : Table) (model : String), ∃ members,
      whole objectMembers (Bytes.ofText (resolutionJson model (table.resolve model))) =
        .ok members ∧
      members.lookup "model" = some (.string model) ∧
      members.lookup "found" = some (.boolean (table.resolve model).isSome) ∧
      members.lookup "key" = (table.resolve model).map (.string ·.key) ∧
      members.lookup "pricing" = (table.resolve model).map (·.rates.toJson.readBack) := by
  constructor
  · intro model usage cost
    obtain ⟨priced, long⟩ := cost.member?_word .byName
    refine ⟨_, _, whole_costJson model usage cost, fun style => ?_, priced, long⟩
    exact usage.reads_take.whole (.alone (usage.recordText_written style .byName))
  · intro table model
    refine ⟨_, whole_resolutionJson model _, ?_⟩
    cases table.resolve model <;> exact ⟨rfl, rfl, rfl, rfl⟩

end Report

end TokenTariff
