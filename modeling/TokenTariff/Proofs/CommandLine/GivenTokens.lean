import TokenTariff.CommandLine.Command
import TokenTariff.Proofs.Tariff.CacheWrites
import TokenTariff.Tariff.Cost
/-!
# Tokens that the command line names

The tokens that a command line names for five minutes and for an hour are billed for that time.
Where it names no total beside them, their sum takes its place, and the division of that sum gives
back the two numbers, also where one of them is negative. Where it names a total as well, the tokens
that it has beyond them are kept for five minutes.

* `TokenCounts.known_of_given`: what is known of the cache writes;
* `TokenCounts.given_tokens_are_billed`: what is billed.
-/

namespace TokenTariff
set_option autoImplicit false

/-! ## Sums in the range -/

namespace TokenCount
variable {a b c : TokenCount}

theorem val_add_of_inRange (fits : InRange (a.val + b.val)) : (a + b).val = a.val + b.val := by
  rw [val_add, clamp_val fits.1 fits.2]

/-- What is left of a sum without its two parts. -/
theorem val_sum_sub_sub (sum : c.val = a.val + b.val) : (c - a - b).val = 0 := by
  have first : (c - a).val = b.val := by
    have rest : c.val - a.val = b.val := by omega
    rw [val_sub, rest, clamp_self]
  rw [val_sub, first, Int.sub_self]
  rfl

end TokenCount

/-! ## The division of a sum -/

namespace Usage
open TokenCount
variable {usage : Usage} {known : CacheWrites}

/-- A total that is the sum of the known counts leaves nothing over. -/
theorem cacheWrites_of_sum (h : usage.known = some known)
    (sum : usage.cacheWrite.val = known.fiveMinutes.val + known.oneHour.val) :
    usage.cacheWrites = ⟨known.fiveMinutes.nonnegative, known.oneHour.nonnegative⟩ := by
  rw [cacheWrites_of_known h, val_sum_sub_sub sum]
  rfl

theorem cacheWrites_of_nonneg (h : usage.known = some known) (five : 0 ≤ known.fiveMinutes.val)
    (hour : 0 ≤ known.oneHour.val) :
    usage.cacheWrites.fiveMinutes.val + usage.cacheWrites.oneHour.val =
        max usage.cacheWrite.val (known.fiveMinutes.val + known.oneHour.val) ∧
      usage.cacheWrites.oneHour.val = known.oneHour.val := by
  have parts := cacheWrites_eq_unboundedWrites h five hour
  rw [unboundedWrites_of_known h five hour, Prod.mk.injEq] at parts
  omega

theorem totalInput_of_inRange (fits : InRange (usage.input.val + usage.cacheWrite.val))
    (fits' : InRange (usage.input.val + usage.cacheWrite.val + usage.cacheRead.val)) :
    usage.totalInput.val = usage.input.val + usage.cacheWrite.val + usage.cacheRead.val := by
  have first := val_add_of_inRange fits
  rw [← first] at fits'
  rw [totalInput, val_add_of_inRange fits', first]

end Usage

/-! ## Counts of a command line -/

namespace TokenCounts
open TokenCount
variable {counts : TokenCounts}

theorem known_of_none (five : counts.fiveMinuteWrite = none) (hour : counts.oneHourWrite = none) :
    counts.known = none := by
  rw [known, five, hour]

/-- If one of the two numbers is given, the other one counts as zero. -/
theorem known_of_given (given : counts.fiveMinuteWrite.isSome ∨ counts.oneHourWrite.isSome) :
    counts.known =
      some ⟨counts.fiveMinuteWrite.getD .zero, counts.oneHourWrite.getD .zero⟩ := by
  rw [known]
  cases five : counts.fiveMinuteWrite with
  | some n => rfl
  | none =>
    cases hour : counts.oneHourWrite with
    | some n => rfl
    | none =>
      rw [five, hour] at given
      simp at given

theorem cacheWrite_usage_of_none (h : counts.summed? = none) :
    counts.usage.cacheWrite = counts.cacheWrite := by
  simp only [usage, h]

theorem summed?_of_known (total : counts.cacheWrite = .zero) : counts.summed? = counts.known :=
  if_pos total

theorem summed?_of_total (total : counts.cacheWrite ≠ .zero) : counts.summed? = none :=
  if_neg total

theorem summed?_of_unknown (h : counts.known = none) : counts.summed? = none := by
  rw [summed?, h, ite_self]

/-- The sum of what is known takes the place of a total that is not given. -/
theorem cacheWrite_usage_of_sum {known : CacheWrites} (h : counts.summed? = some known)
    (fits : InRange (known.fiveMinutes.val + known.oneHour.val)) :
    counts.usage.cacheWrite.val = known.fiveMinutes.val + known.oneHour.val := by
  simp only [usage, h]
  exact wrap_val fits

/-- Without a word on how long tokens are kept, the total is kept for five minutes. Otherwise, as
long as the two numbers have a sum in the range: if no total is given, it is that sum, and what is
billed for five minutes and for an hour is what was named for it, or nothing where that is negative;
and the context has the size of all that was named, if no sum on the way leaves the range. If a
total is given and neither number is negative, what was named for an hour is billed for an hour, and
both parts together are the total or what was named, whichever is more. A model is billed for the
two parts at its rate and at that of an hour. -/
theorem given_tokens_are_billed (counts : TokenCounts) :
    let five := (counts.fiveMinuteWrite.getD .zero).val
    let hour := (counts.oneHourWrite.getD .zero).val
    let usage := counts.usage
    let billed := usage.cacheWrites
    (counts.fiveMinuteWrite = none → counts.oneHourWrite = none →
      billed.fiveMinutes.val = max counts.cacheWrite.val 0 ∧ billed.oneHour.val = 0) ∧
    (counts.fiveMinuteWrite.isSome ∨ counts.oneHourWrite.isSome → InRange (five + hour) →
      (counts.cacheWrite = .zero →
        usage.cacheWrite.val = five + hour ∧
        billed.fiveMinutes.val = max five 0 ∧ billed.oneHour.val = max hour 0 ∧
        (InRange (counts.input.val + (five + hour)) →
          InRange (counts.input.val + (five + hour) + counts.cacheRead.val) →
          usage.totalInput.val = counts.input.val + five + hour + counts.cacheRead.val)) ∧
      (counts.cacheWrite ≠ .zero → 0 ≤ five → 0 ≤ hour →
        billed.fiveMinutes.val + billed.oneHour.val = max counts.cacheWrite.val (five + hour) ∧
        billed.oneHour.val = hour)) ∧
    ∀ table model found, Table.resolve table model = some found →
      (table.cost model usage).fiveMinuteWrite =
        billed.fiveMinutes.toFloat * found.rates.cacheWrite ∧
      (table.cost model usage).oneHourWrite = billed.oneHour.toFloat * table.hourRate model := by
  intro five hour usage billed
  refine ⟨fun noFive noHour => ?_, fun given fits => ?_, fun table model found resolved => ?_⟩
  · have unknown := known_of_none noFive noHour
    have total : usage.cacheWrite = counts.cacheWrite :=
      cacheWrite_usage_of_none (summed?_of_unknown unknown)
    have parts : billed = _ := Usage.cacheWrites_of_unknown unknown
    rw [parts, total]
    exact ⟨val_nonnegative _, rfl⟩
  · have known := known_of_given given
    refine ⟨fun noTotal => ?_, fun total five_nonneg hour_nonneg => ?_⟩
    · have sum : usage.cacheWrite.val = five + hour :=
        cacheWrite_usage_of_sum ((summed?_of_known noTotal).trans known) fits
      have parts : billed = _ := Usage.cacheWrites_of_sum known sum
      refine ⟨sum, ?_, ?_, fun first second => ?_⟩
      · rw [parts]
        exact val_nonnegative _
      · rw [parts]
        exact val_nonnegative _
      · rw [← sum] at first second
        have size : usage.totalInput.val = _ := Usage.totalInput_of_inRange first second
        rw [size, sum, ← Int.add_assoc]
        rfl
    · have total_eq : usage.cacheWrite = counts.cacheWrite :=
        cacheWrite_usage_of_none (summed?_of_total total)
      have known' : usage.known = some _ := known
      rw [← total_eq]
      exact Usage.cacheWrites_of_nonneg known' five_nonneg hour_nonneg
  · simp only [Table.cost, resolved]
    exact ⟨rfl, rfl⟩

/-- The greatest and the least count, a total that leaves a rest, and a total alone. -/
theorem given_tokens_are_billed_extremes :
    let sum : TokenCounts :=
      ⟨.zero, .zero, .zero, .clamp 3, some (.clamp 0x7FFFFFFFFFFFFFFF),
        some (.clamp (-0x8000000000000000))⟩
    let rest := { sum with
      cacheWrite := .clamp 1000, fiveMinuteWrite := none, oneHourWrite := some (.clamp 300) }
    let alone := { rest with oneHourWrite := none }
    let table : Table := .ofRates (.ofList [("m", {})])
    (sum.usage.cacheWrites.fiveMinutes.val = 0x7FFFFFFFFFFFFFFF ∧
      sum.usage.cacheWrites.oneHour.val = 0 ∧ sum.usage.totalInput.val = 2) ∧
    (rest.usage.cacheWrites.fiveMinutes.val + rest.usage.cacheWrites.oneHour.val = 1000 ∧
      rest.usage.cacheWrites.oneHour.val = 300 ∧
      (table.cost "m" rest.usage).oneHourWrite =
        rest.usage.cacheWrites.oneHour.toFloat * table.hourRate "m") ∧
    alone.usage.cacheWrites.fiveMinutes.val = 1000 := by
  intro sum rest alone table
  obtain ⟨-, given, -⟩ := given_tokens_are_billed sum
  obtain ⟨ofSum, -⟩ := given (.inl rfl) (by decide)
  obtain ⟨-, five, hour, size⟩ := ofSum rfl
  obtain ⟨-, given', costs⟩ := given_tokens_are_billed rest
  obtain ⟨-, ofTotal⟩ := given' (.inr rfl) (by decide)
  obtain ⟨both, hour'⟩ := ofTotal (by decide) (by decide) (by decide)
  obtain ⟨found, resolved⟩ : ∃ found, table.resolve "m" = some found :=
    Option.isSome_iff_exists.1 (by decide +kernel)
  obtain ⟨unknown, -, -⟩ := given_tokens_are_billed alone
  exact ⟨⟨five, hour, size (by decide) (by decide)⟩,
    ⟨both, hour', (costs table "m" found resolved).2⟩, (unknown rfl rfl).1⟩

end TokenCounts

end TokenTariff
