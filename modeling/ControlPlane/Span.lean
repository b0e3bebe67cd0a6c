/-!
# Spans of time

A span is a number of seconds and a remainder in nanoseconds, both bounded, so each length of time
has one representation. Moments on a clock are natural numbers of nanoseconds.
-/

namespace ControlPlane

/-- Nanoseconds in one second. -/
def nanosPerSecond : Nat := 1000000000

/-- A length of time: at most `2 ^ 64 - 1` seconds and less than one second more. Since the
remainder is less than a second, equal lengths are equal spans. -/
structure Span where
  seconds : UInt64
  nanos : Fin nanosPerSecond
deriving DecidableEq

instance : Inhabited Span := ⟨⟨0, 0, by decide⟩⟩

/-- A moment on a clock, in nanoseconds since it was started. It has no bound, so the moment that is
some span ahead always exists. -/
abbrev Moment := Nat

namespace Span

/-- A span of whole seconds. -/
def ofSeconds (seconds : UInt64) : Span := ⟨seconds, 0, by decide⟩

/-- The length in nanoseconds, by which a clock counts. -/
def toNanos (d : Span) : Nat := d.seconds.toNat * nanosPerSecond + d.nanos

/-- Whether the span has no length. -/
def isZero (d : Span) : Bool := d.seconds == 0 && d.nanos.val == 0

/-- The span of so many seconds and nanoseconds. Whole seconds among the nanoseconds are carried
over; a span too long to be written has none. -/
def ofParts? (seconds nanos : Nat) : Option Span :=
  let total := seconds + nanos / nanosPerSecond
  if total < UInt64.size then
    some ⟨UInt64.ofNat total, nanos % nanosPerSecond, Nat.mod_lt _ (by decide)⟩
  else none

/-- The span of so many milliseconds, the longest span if there are too many. -/
def ofMillis (millis : Nat) : Span :=
  (ofParts? (millis / 1000) (millis % 1000 * 1000000)).getD
    ⟨UInt64.ofNat (UInt64.size - 1), nanosPerSecond - 1, by decide⟩

theorem isZero_iff (d : Span) : d.isZero = true ↔ d.toNanos = 0 := by
  rcases d with ⟨s, n, hn⟩
  simp only [isZero, toNanos, nanosPerSecond, Bool.and_eq_true, beq_iff_eq, ← UInt64.toNat_inj,
    UInt64.toNat_zero]
  omega

end Span

end ControlPlane
