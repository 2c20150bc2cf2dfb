/-!
# Instants and durations

Points of time and spans of time, exact to the nanosecond. A point of time is told as a clock tells
it: every minute has sixty seconds, and a leap second goes on after the last second of a minute as
nanoseconds beyond it.

* `Instant.nanosSince` is the span between two instants, with a leap second that lies between their
  times of day;
* `Instant.elapsedSince?` is the same span where it is not negative.
-/

namespace TokenTariff
set_option autoImplicit false

def nanosPerSecond : Nat := 1000000000

/-! ## Durations -/

/-- A span of time that is not negative. -/
structure Duration where
  nanos : Nat
  deriving DecidableEq

namespace Duration

def zero : Duration := ⟨0⟩

def ofSeconds (seconds : Nat) : Duration := ⟨seconds * nanosPerSecond⟩

def ofHours (hours : Nat) : Duration := ofSeconds (hours * 3600)

def seconds (d : Duration) : Nat := d.nanos / nanosPerSecond

end Duration

/-! ## Instants -/

/-- Whether a clock tells the time with these nanoseconds after the full second: with less than a
second of them, or with less than two after the last second of a minute. -/
def isTold (seconds : Int) (nanos : Nat) : Bool :=
  nanos < nanosPerSecond || (nanos < 2 * nanosPerSecond && seconds % 60 == 59)

/-- A point of time. -/
structure Instant where
  /-- The full seconds since the beginning of 1970, of which every day has 86400. -/
  seconds : Int
  /-- The nanoseconds after the full second; a leap second is told by a second of them or more. -/
  nanos : Nat
  told : isTold seconds nanos = true
  deriving DecidableEq

namespace Instant

/-- The instant that is told by seconds and nanoseconds, if there is one. -/
def of? (seconds : Int) (nanos : Nat) : Option Instant :=
  if h : isTold seconds nanos then some ⟨seconds, nanos, h⟩ else none

def ofSeconds (seconds : Int) : Instant :=
  ⟨seconds, 0, rfl⟩

def epoch : Instant := ofSeconds 0

/-! ### Spans -/

/-- The full seconds since the day began. -/
def timeOfDay (t : Instant) : Int := t.seconds % 86400

def inLeapSecond (t : Instant) : Bool := nanosPerSecond ≤ t.nanos

/-- The leap seconds between the times of day of two instants: one, if the instant with the earlier
time of day lies in it. -/
def leapSecondBefore (t later : Instant) : Int :=
  if t.inLeapSecond && t.timeOfDay < later.timeOfDay then 1 else 0

/-- The nanoseconds from `earlier` to `t`, less than zero if `earlier` is the later one. -/
def nanosSince (t earlier : Instant) : Int :=
  let seconds :=
    t.seconds - earlier.seconds + leapSecondBefore earlier t - leapSecondBefore t earlier
  seconds * nanosPerSecond + t.nanos - earlier.nanos

/-- The time from `earlier` to `t`; `none` if that lies in the future of `t`. -/
def elapsedSince? (t earlier : Instant) : Option Duration :=
  if 0 ≤ t.nanosSince earlier then some ⟨(t.nanosSince earlier).toNat⟩ else none

/-! ### Nanoseconds without leap seconds -/

/-- The nanoseconds since the beginning of 1970, where a leap second runs into the second after
it. -/
def totalNanos (t : Instant) : Int := t.seconds * nanosPerSecond + t.nanos

theorem isTold_mod (seconds total : Int) :
    isTold seconds (total % nanosPerSecond).toNat = true := by
  have h : (total % nanosPerSecond).toNat < nanosPerSecond := by
    simp only [nanosPerSecond]
    omega
  simp [isTold, h]

/-- The instant with the given nanoseconds, outside of any leap second. -/
def ofTotalNanos (total : Int) : Instant :=
  ⟨total / nanosPerSecond, (total % nanosPerSecond).toNat, isTold_mod _ _⟩

theorem totalNanos_ofTotalNanos (total : Int) : (ofTotalNanos total).totalNanos = total := by
  simp only [ofTotalNanos, totalNanos, nanosPerSecond]
  omega

/-- The instant that lies `d` after `t`. -/
def after (t : Instant) (d : Duration) : Instant := ofTotalNanos (t.totalNanos + d.nanos)

theorem totalNanos_after (t : Instant) (d : Duration) :
    (t.after d).totalNanos = t.totalNanos + d.nanos := by
  simp [after, totalNanos_ofTotalNanos]

end Instant

end TokenTariff
