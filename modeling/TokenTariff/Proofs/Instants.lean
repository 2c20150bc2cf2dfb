import Mathlib.Tactic.Common
import TokenTariff.Time
/-!
# The order of instants

A clock shows one instant before another by the full seconds, and within a second by the nanoseconds
after it. Outside of leap seconds, the span between two instants is the difference of their
nanoseconds, so that it has the sign of their order and grows with the later one.

Spans count a leap second only for the times of day behind it. The times of day of the next day are
all before it, so that a leap second at the end of a day runs along with the first second of the
next: there, and only there, the sign of a span is not that of the order.
-/

namespace TokenTariff
set_option autoImplicit false

namespace Instant
variable {t t' later : Instant}

/-- Whether a clock shows `t` before `later`. -/
def IsBefore (t later : Instant) : Prop :=
  t.seconds < later.seconds ∨ t.seconds = later.seconds ∧ t.nanos < later.nanos

instance (t later : Instant) : Decidable (t.IsBefore later) :=
  inferInstanceAs (Decidable (_ ∨ _))

/-- Whether `t` lies in the leap second at the end of a day, and `next` in the second after it. -/
structure LeapsInto (t next : Instant) : Prop where
  leap : t.inLeapSecond = true
  seconds : next.seconds = t.seconds + 1
  midnight : next.timeOfDay = 0

/-! ## Leap seconds -/

theorem nanos_cases (t : Instant) :
    t.nanos < 1000000000 ∨ t.nanos < 2000000000 ∧ t.seconds % 60 = 59 := by
  have told := t.told
  simp only [isTold, Bool.or_eq_true, Bool.and_eq_true, decide_eq_true_eq, beq_iff_eq] at told
  simp only [nanosPerSecond] at told
  omega

theorem inLeapSecond_iff : t.inLeapSecond = true ↔ 1000000000 ≤ t.nanos := by
  rw [inLeapSecond, decide_eq_true_eq, nanosPerSecond]

theorem nanos_lt_of_ordinary (h : t.inLeapSecond = false) : t.nanos < 1000000000 := by
  rwa [inLeapSecond, decide_eq_false_iff_not, nanosPerSecond, Nat.not_le] at h

theorem leapSecondBefore_cases (t later : Instant) :
    (leapSecondBefore t later = 1 ∧ 1000000000 ≤ t.nanos ∧ t.timeOfDay < later.timeOfDay) ∨
      leapSecondBefore t later = 0 ∧ ¬ (1000000000 ≤ t.nanos ∧ t.timeOfDay < later.timeOfDay) := by
  unfold leapSecondBefore
  split
  · next h =>
    rw [Bool.and_eq_true, decide_eq_true_eq, inLeapSecond_iff] at h
    exact .inl ⟨rfl, h⟩
  · next h =>
    rw [Bool.and_eq_true, decide_eq_true_eq, inLeapSecond_iff] at h
    exact .inr ⟨rfl, h⟩

theorem leapSecondBefore_of_ordinary (h : t.inLeapSecond = false) (later : Instant) :
    leapSecondBefore t later = 0 := by
  simp [leapSecondBefore, h]

/-! ## Spans -/

theorem nanosSince_eq (t earlier : Instant) :
    t.nanosSince earlier = t.totalNanos - earlier.totalNanos +
      (leapSecondBefore earlier t - leapSecondBefore t earlier) * 1000000000 := by
  simp only [nanosSince, totalNanos, nanosPerSecond]
  omega

theorem nanosSince_comm (t t' : Instant) : t.nanosSince t' = -t'.nanosSince t := by
  rw [nanosSince_eq, nanosSince_eq]
  omega

theorem nanosSince_of_ordinary (h : t.inLeapSecond = false) (h' : t'.inLeapSecond = false) :
    t.nanosSince t' = t.totalNanos - t'.totalNanos := by
  rw [nanosSince_eq, leapSecondBefore_of_ordinary h, leapSecondBefore_of_ordinary h']
  omega

theorem isBefore_iff_of_ordinary (h : t.inLeapSecond = false) (h' : later.inLeapSecond = false) :
    t.IsBefore later ↔ t.totalNanos < later.totalNanos := by
  have := nanos_lt_of_ordinary h
  have := nanos_lt_of_ordinary h'
  simp only [IsBefore, totalNanos, nanosPerSecond]
  omega

/-- The span to a later instant is negative, unless the later one is at the beginning of a day and
the other has gone on beyond the end of the day before. -/
theorem nanosSince_neg (h : t.IsBefore later) (apart : ¬ t.LeapsInto later) :
    t.nanosSince later < 0 := by
  have told := nanos_cases t
  have told' := nanos_cases later
  have apart : ¬ (1000000000 ≤ t.nanos ∧ later.seconds = t.seconds + 1 ∧ later.timeOfDay = 0) :=
    fun ⟨leap, next, midnight⟩ => apart ⟨inLeapSecond_iff.2 leap, next, midnight⟩
  rw [nanosSince_eq]
  simp only [IsBefore, totalNanos, nanosPerSecond, timeOfDay] at *
  rcases leapSecondBefore_cases t later with ⟨counted, leap, behind⟩ | ⟨counted, behind⟩ <;>
    rcases leapSecondBefore_cases later t with ⟨counted', leap', behind'⟩ | ⟨counted', behind'⟩ <;>
    simp only [timeOfDay] at behind behind' <;>
    rw [counted, counted'] <;>
    omega

theorem nanosSince_nonneg (h : ¬ t.IsBefore t') (apart : ¬ t'.LeapsInto t) :
    0 ≤ t.nanosSince t' := by
  by_cases before : t'.IsBefore t
  · have := nanosSince_neg before apart
    rw [nanosSince_comm] at this
    omega
  · have same : t = t' := by
      obtain ⟨seconds, nanos, told⟩ := t
      obtain ⟨seconds', nanos', told'⟩ := t'
      simp only [IsBefore] at h before
      obtain rfl : seconds = seconds' := by omega
      obtain rfl : nanos = nanos' := by omega
      rfl
    rw [same, nanosSince_eq]
    omega

/-- Spans grow with the later instant, if both of them are outside of leap seconds or at least two
seconds apart. -/
theorem nanosSince_mono {origin : Instant} (ordinary : origin.inLeapSecond = false)
    (h : t.seconds + 2 ≤ later.seconds ∨
      t.inLeapSecond = false ∧ later.inLeapSecond = false ∧ t.totalNanos ≤ later.totalNanos) :
    t.nanosSince origin ≤ later.nanosSince origin := by
  rcases h with apart | ⟨h, h', le⟩
  · have told := nanos_cases t
    rw [nanosSince_eq, nanosSince_eq, leapSecondBefore_of_ordinary ordinary,
      leapSecondBefore_of_ordinary ordinary]
    simp only [totalNanos, nanosPerSecond]
    -- a second that is taken off again was there before
    rcases leapSecondBefore_cases t origin with ⟨counted, leap, -⟩ | ⟨counted, -⟩ <;>
      rcases leapSecondBefore_cases later origin with ⟨counted', leap', -⟩ | ⟨counted', -⟩ <;>
      rw [counted, counted'] <;>
      omega
  · rw [nanosSince_of_ordinary h ordinary, nanosSince_of_ordinary h' ordinary]
    omega

end Instant

end TokenTariff
