import MulticastRelay.Decimal.Text
import MulticastRelay.Time.RateLimit

/-! # Quantities in reports

Volumes, rates and times as a reader wants them: scaled to the largest unit reached, with one decimal
place there and all digits below the smallest unit.
-/
namespace MulticastRelay.Report

/-- A unit and its size. -/
structure ScaleUnit where
  name : String
  size : Float

/-- Units of volume, the largest first. -/
def volumeUnits : List ScaleUnit :=
  [⟨"GiB", 1073741824⟩, ⟨"MiB", 1048576⟩, ⟨"KiB", 1024⟩]

/-- Units of bit rate, the largest first. -/
def rateUnits : List ScaleUnit :=
  [⟨"Gbit/s", 1e9⟩, ⟨"Mbit/s", 1e6⟩, ⟨"kbit/s", 1e3⟩]

/-- A value in the largest unit that it reaches, else in the base unit. -/
def scaled (value : Float) (units : List ScaleUnit) (base : String) : String :=
  match units.find? (fun u => u.size ≤ value) with
  | some u => Decimal.onePlaceText (value / u.size) ++ " " ++ u.name
  | none => Decimal.shortestText value ++ " " ++ base

/-- A number of bytes. -/
def volume (bytes : Nat) : String := scaled bytes.toUInt64.toFloat volumeUnits "B"

/-- A pacing rate, in bits per second. -/
def rate : RateLimit → String
  | .unlimited => "unlimited"
  | .suspended => "suspended"
  | .bytesPerSecond bytes => scaled (bytes * 8) rateUnits "bit/s"

/-- A number in two digits at least. -/
def twoDigits (n : Nat) : String := if n < 10 then s!"0{n}" else toString n

/-- Time as `[Nd ]H:MM:SS`, or `M:SS` below an hour. -/
def uptime (d : Duration) : String :=
  let total := d / Duration.perSecond
  let days := total / 86400
  let hours := total % 86400 / 3600
  let tail := twoDigits (total % 60)
  let minutes := total % 3600 / 60
  if days = 0 ∧ hours = 0 then s!"{minutes}:{tail}"
  else
    let clock := s!"{hours}:{twoDigits minutes}:{tail}"
    if days = 0 then clock else s!"{days}d {clock}"

end MulticastRelay.Report
