import MulticastRelay.Time.Instant

/-! # Rate limits

A rate in bytes per second sets the gap after a frame of a given length. A negative rate lifts the
limit and zero suspends transmission.
-/
namespace MulticastRelay

/-- The transmit rate of an adapter. -/
inductive RateLimit where
  | unlimited
  | suspended
  | bytesPerSecond (rate : Float)
deriving Repr

namespace RateLimit

/-- Delay before another attempt after a failed one, when nothing is paced. -/
def failureDelay : Duration := Duration.millisecond

/-- A configured rate: below zero or not a number is unlimited, zero suspends. -/
def ofBytesPerSecond (rate : Float) : RateLimit :=
  if rate < 0 || rate.isNaN then .unlimited
  else if rate == 0 then .suspended
  else .bytesPerSecond rate

/-- The rate in the configured encoding. -/
def toBytesPerSecond : RateLimit → Float
  | .unlimited => -1
  | .suspended => 0
  | .bytesPerSecond rate => rate

def isPaced : RateLimit → Bool
  | .bytesPerSecond _ => true
  | _ => false

def isSuspended : RateLimit → Bool
  | .suspended => true
  | _ => false

/-- Seconds that a number of bytes takes at a rate. -/
def secondsFor (rate : Float) (bytes : Nat) : Float := bytes.toUInt64.toFloat / rate

/-- The gap to keep after a frame of so many bytes; `none` while suspended. -/
def interval : RateLimit → Nat → Except ClockFault (Option Duration)
  | .unlimited, _ => .ok (some 0)
  | .suspended, _ => .ok none
  | .bytesPerSecond rate, bytes => (Duration.ofSeconds (secondsFor rate bytes)).map some

/-- The delay before another attempt with a frame that failed; `none` while suspended. -/
def retryDelay : RateLimit → Nat → Except ClockFault (Option Duration)
  | .unlimited, _ => .ok (some failureDelay)
  | limit, bytes => limit.interval bytes

end RateLimit
end MulticastRelay
