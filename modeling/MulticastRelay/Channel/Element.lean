import MulticastRelay.Channel.Device

/-! # Elements

An element is a device attached to an interface: it can be enabled for transmission and capture, knows
which readiness it registered for, and counts what passes.
-/
namespace MulticastRelay

/-- How an attempt to transmit ended. -/
inductive SendOutcome where
  | accepted
  /-- The channel is full; wait for room. -/
  | blocked
  | failed
deriving DecidableEq, Repr

structure ElementCounters where
  framesSent : Nat := 0
  bytesSent : Nat := 0
  framesReceived : Nat := 0
  bytesReceived : Nat := 0
  failures : Nat := 0
  wouldBlock : Nat := 0
deriving DecidableEq, Repr

structure Element where
  device : Device
  txEnabled : Bool := true
  rxEnabled : Bool := true
  interest : Interest := {}
  counters : ElementCounters := {}
deriving DecidableEq, Repr

namespace Element

def new (d : Device) : Element := { device := d }

def name (e : Element) : String := e.device.name

/-! ## Registration -/

def setInput (e : Element) (on : Bool) : Element :=
  match e.interest.setInput on with
  | (.changed, interest) => { e with interest, device := e.device.watchInput on }
  | (.unchanged, interest) => { e with interest }

def setOutput (e : Element) (on : Bool) : Element :=
  match e.interest.setOutput on with
  | (.changed, interest) => { e with interest, device := e.device.watchOutput on }
  | (.unchanged, interest) => { e with interest }

def startInput (e : Element) : Element := e.setInput true
def stopInput (e : Element) : Element := e.setInput false
def startOutput (e : Element) : Element := e.setOutput true
def stopOutput (e : Element) : Element := e.setOutput false

def setTx (e : Element) (on : Bool) : Element := { e with txEnabled := on }

/-- Enables or disables capture, and registers accordingly. -/
def setRx (e : Element) (on : Bool) : Element := { e with rxEnabled := on }.setInput on

/-- Which registered readiness has come about. -/
def poll (e : Element) : Readiness :=
  if e.interest.isEmpty then .nothing else e.device.poll e.interest

/-! ## Traffic -/

def countAccepted (c : ElementCounters) (length : Nat) : ElementCounters :=
  { c with framesSent := c.framesSent + 1, bytesSent := c.bytesSent + length }

/-- Transmits a frame, under another source address if one is given. -/
def send (e : Element) (f : Frame) (source : Option LinkAddress) : SendOutcome × Element :=
  match e.device.offerAs f source with
  | (.ok (.accepted n), device) => (.accepted, { e with device, counters := countAccepted e.counters n })
  | (.ok .wouldBlock, device) =>
    (.blocked, { e with device, counters.wouldBlock := e.counters.wouldBlock + 1 })
  | (.error _, device) => (.failed, { e with device, counters.failures := e.counters.failures + 1 })

def countReceived (c : ElementCounters) (length : Nat) : ElementCounters :=
  { c with framesReceived := c.framesReceived + 1, bytesReceived := c.bytesReceived + length }

/-- Receives a frame into a space. -/
def receive (e : Element) (space : List UInt8) :
    Except TransportError (Option (Nat × Direction)) × List UInt8 × Element :=
  match e.device.receive space with
  | (.ok (some (n, direction)), space, device) =>
    (.ok (some (n, direction)), space, { e with device, counters := countReceived e.counters n })
  | (result, space, device) => (result, space, { e with device })

/-- Closes the device and drops what is registered. -/
def close (e : Element) : Element :=
  let e := e.stopOutput.stopInput
  { e with device := e.device.close }

end Element
end MulticastRelay
