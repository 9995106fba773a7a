import MulticastRelay.Decimal.Binary

/-! # Instants and durations

Time is counted in nanoseconds: a duration from zero, an instant from a fixed origin. Durations given
in seconds as doubles are converted exactly. Time that cannot be represented is a fault.
-/
namespace MulticastRelay

/-- Nanoseconds. -/
abbrev Duration := Nat

/-- Nanoseconds after the origin. -/
abbrev Instant := Nat

/-- Time arithmetic that has no result. -/
inductive ClockFault where
  /-- A number of seconds that is negative, not a number, or beyond the longest duration. -/
  | duration
  /-- A deadline past the last instant. -/
  | horizon
deriving DecidableEq, Repr

namespace Duration

def perSecond : Nat := 1000000000

def millisecond : Duration := 1000000

def microsecond : Duration := 1000

/-- Durations stay below this many seconds. -/
def secondsBound : Nat := Nat.pow 2 64

/-- The duration of a number of seconds, to the nearest nanosecond with ties to even. -/
def ofSeconds (seconds : Float) : Except ClockFault Duration :=
  match Decimal.Reading.ofFloat seconds with
  | .finite negative size =>
    if size.mantissa = 0 then .ok 0
    else if negative then .error .duration
    else if size.denominator * secondsBound ≤ size.numerator then .error .duration
    else .ok (Decimal.roundHalfEven (size.numerator * perSecond) size.denominator)
  | _ => .error .duration

/-- The duration in seconds: whole seconds plus the fraction, each as a double. -/
def toSeconds (d : Duration) : Float :=
  (d / perSecond).toUInt64.toFloat + (d % perSecond).toUInt64.toFloat / 1e9

end Duration

namespace Instant

/-- Instants stay below this many seconds after the origin. -/
def secondsBound : Nat := Nat.pow 2 63

/-- The instant a duration later. -/
def after (now : Instant) (delay : Duration) : Except ClockFault Instant :=
  if now + delay < secondsBound * Duration.perSecond then .ok (now + delay) else .error .horizon

end Instant
end MulticastRelay
