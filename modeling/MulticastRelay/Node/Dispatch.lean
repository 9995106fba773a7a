import MulticastRelay.Adapter.Transmission

/-! # Dispatch

One frame is handed to the adapter of each destination in turn. A destination that fails never keeps
the frame from the others.
-/
namespace MulticastRelay

/-- The adapter of an interface in a node, fed by a device if it has a source. -/
abbrev Station := Adapter DeviceSource

namespace Adapter

/-- Devices of the elements, then the device of the source. -/
def devices (a : Station) : List Device :=
  a.elements.map (·.device) ++ (a.source.map (·.device)).toList

/-- Changes every device of the elements and of the source. -/
def mapDevices (f : Device → Device) (a : Station) : Station :=
  { a.mapElements (fun e => { e with device := f e.device }) with
    source := a.source.map fun s => { s with device := f s.device } }

end Adapter

structure DispatchReport where
  /-- Destinations that sent the frame at once. -/
  sent : Nat := 0
  /-- Destinations that queued it. -/
  queued : Nat := 0
  /-- Destinations that did neither, in order. -/
  failed : List InterfaceId := []
deriving DecidableEq, Repr

namespace DispatchReport

/-- Some destination sent or queued the frame. -/
def delivered (r : DispatchReport) : Bool := 0 < r.sent + r.queued

/-- Adds how one destination took the frame. -/
def note (r : DispatchReport) (dest : InterfaceId) : Except AdapterError Delivery → DispatchReport
  | .ok .sent => { r with sent := r.sent + 1 }
  | .ok .queued => { r with queued := r.queued + 1 }
  | .error _ => { r with failed := r.failed ++ [dest] }

def append (r s : DispatchReport) : DispatchReport :=
  ⟨r.sent + s.sent, r.queued + s.queued, r.failed ++ s.failed⟩

instance : Append DispatchReport := ⟨append⟩

end DispatchReport

/-- The adapters of a node, in ascending order of owner, and the pool they share. An adapter is entered
under the interface that it is made for, which stays its owner, so that owners serve as keys. -/
structure Stations where
  adapters : List Station := []
  pool : Pool
deriving Repr

namespace Stations

def get? (s : Stations) (id : InterfaceId) : Option Station := Keyed.get? Adapter.owner id s.adapters

/-- Puts an adapter in the place of the one with its owner. -/
def replace (s : Stations) (a : Station) : Stations :=
  { s with adapters := Keyed.modify Adapter.owner a.owner (fun _ => a) s.adapters }

def insert (s : Stations) (a : Station) : Stations :=
  { s with adapters := Ascending.insert Adapter.before a s.adapters }

def erase (s : Stations) (id : InterfaceId) : Stations :=
  { s with adapters := Keyed.erase Adapter.owner id s.adapters }

/-- Hands a frame to one adapter. -/
def transmit (s : Stations) (a : Station) (f : Frame) (priority : Bool) (now : Instant) :
    Except ClockFault (Except AdapterError Delivery × Stations) := do
  let (result, a, pool) ← a.transmit s.pool f priority now
  return (result, { s.replace a with pool })

/-- Hands a frame to every destination of a list, adding to a report. -/
def deliver (f : Frame) (priority : Bool) (now : Instant) :
    List InterfaceId → DispatchReport → Stations → Except ClockFault (DispatchReport × Stations)
  | [], r, s => .ok (r, s)
  | dest :: rest, r, s =>
    match s.get? dest with
    | none => deliver f priority now rest { r with failed := r.failed ++ [dest] } s
    | some a => do
      let (result, s) ← s.transmit a f priority now
      deliver f priority now rest (r.note dest result) s

/-- Delivers a frame to destinations; control traffic goes ahead in their queues. -/
def dispatch (s : Stations) (destinations : List InterfaceId) (f : Frame) (now : Instant) :
    Except ClockFault (DispatchReport × Stations) :=
  deliver f (Frame.isControl f) now destinations {} s

end Stations
end MulticastRelay
