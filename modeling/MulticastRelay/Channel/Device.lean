import MulticastRelay.Channel.Interest
import MulticastRelay.Frame.Basic

/-! # Devices

A device is a channel that captures and transmits frames and never blocks: a full channel says so. Its
behaviour is written down in advance, as a script of verdicts on the frames offered to it and a line of
frames waiting to be received; whatever a real channel does in a finite run, a script can tell.
-/
namespace MulticastRelay

/-- Which way a captured frame was going. -/
inductive Direction where
  | inbound
  | outbound
deriving DecidableEq, Repr

inductive TransportError where
  | io (detail : String)
  | closed
  | invalidDevice (name : String)
  | unsupported
deriving DecidableEq, Repr

def TransportError.message : TransportError → String
  | .io detail => "IO error: " ++ detail
  | .closed => "Transport is closed"
  | .invalidDevice name => "Invalid device: " ++ name
  | .unsupported => "Operation not supported on this platform"

/-- What a channel does with a frame offered to it. -/
inductive Verdict where
  | accept
  | block
  | fail
deriving DecidableEq, Repr

/-- How an offer ended, short of an error. -/
inductive SendStatus where
  | accepted (length : Nat)
  | wouldBlock
deriving DecidableEq, Repr

structure Device where
  name : String
  /-- The number of the opening that made the device. -/
  serial : Nat := 0
  /-- Verdicts on the next frames. -/
  script : List Verdict := []
  /-- The verdict once the script has run out. -/
  otherwise : Verdict := .accept
  /-- Frames accepted so far, in order. -/
  sent : List Frame := []
  /-- Frames waiting to be received. -/
  inbound : List (Frame × Direction) := []
  /-- Whether polls report room for output. -/
  hasRoom : Bool := true
  /-- Whether the channel was asked to report input and output readiness. -/
  watching : Interest := {}
  isClosed : Bool := false
deriving DecidableEq, Repr

namespace Device

/-- Offers a frame to the channel. -/
def offer (d : Device) (f : Frame) : Except TransportError SendStatus × Device :=
  if d.isClosed then (.error .closed, d)
  else
    let (verdict, script) := match d.script with
      | v :: rest => (v, rest)
      | [] => (d.otherwise, [])
    let d := { d with script }
    match verdict with
    | .accept => (.ok (.accepted f.length), { d with sent := d.sent ++ [f] })
    | .block => (.ok .wouldBlock, d)
    | .fail => (.error (.io "scripted failure"), d)

/-- Offers a frame with its source address replaced by an address, if one is given. -/
def offerAs (d : Device) (f : Frame) (source : Option LinkAddress) : Except TransportError SendStatus × Device :=
  match source with
  | some a => d.offer (f.setSource a)
  | none => d.offer f

/-- Receives a frame into a space, cut to its length; `none` when nothing waits. -/
def receive (d : Device) (space : List UInt8) :
    Except TransportError (Option (Nat × Direction)) × List UInt8 × Device :=
  if d.isClosed then (.error .closed, space, d)
  else match d.inbound with
    | [] => (.ok none, space, d)
    | (f, direction) :: rest =>
      let n := min f.length space.length
      (.ok (some (n, direction)), f.take n ++ space.drop n, { d with inbound := rest })

/-- Which of the interests are ready. -/
def poll (d : Device) (i : Interest) : Readiness :=
  .ofFlags (i.input && !d.inbound.isEmpty) (i.output && d.hasRoom)

def watchInput (d : Device) (on : Bool) : Device := { d with watching.input := on }

def watchOutput (d : Device) (on : Bool) : Device := { d with watching.output := on }

def close (d : Device) : Device := { d with isClosed := true }

/-! ## The far end -/

def addVerdicts (d : Device) (vs : List Verdict) : Device := { d with script := d.script ++ vs }

def inject (d : Device) (f : Frame) (direction : Direction) : Device :=
  { d with inbound := d.inbound ++ [(f, direction)] }

/-- The device of a list that was opened last. -/
def latest? (ds : List Device) : Option Device := ds.foldl later none
where
  later : Option Device → Device → Option Device
    | some best, d => if best.serial < d.serial then some d else some best
    | none, d => some d

/-- Changes the device of one opening. -/
def onSerial (serial : Nat) (f : Device → Device) (d : Device) : Device :=
  if d.serial = serial then f d else d

end Device

/-- The machine that a node runs on, as far as devices go. -/
structure Host where
  /-- Devices that cannot be opened. -/
  refused : List String := []
  /-- How many devices were opened. -/
  opened : Nat := 0
  /-- Devices that were let go, as they were left. -/
  released : List Device := []
deriving DecidableEq, Repr

namespace Host

/-- Opens a device. -/
def open? (h : Host) (name : String) : Except TransportError (Device × Host) :=
  if h.refused.contains name then .error (.invalidDevice name)
  else .ok ({ name, serial := h.opened }, { h with opened := h.opened + 1 })

def refuse (h : Host) (name : String) : Host := { h with refused := h.refused ++ [name] }

/-- Lets a device go. -/
def release (h : Host) (d : Device) : Host := { h with released := h.released ++ [d] }

end Host
end MulticastRelay
