import MulticastRelay.Adapter.Transmission

/-! # Runs of an adapter

Everything that may be asked of an adapter once it exists, in any order and at any time. Each
request comes with a pool of its own, so that nothing is assumed of who else draws on it, and
between requests the far ends of the channels and the source may change at will. A request that has
no time to be carried out ends the run.
-/
namespace MulticastRelay

/-- The device after its far end had a say: what it will do changes, what it did stays. -/
def Device.meanwhile (change : Device → Device) (d : Device) : Device :=
  { d with
    script := (change d).script
    otherwise := (change d).otherwise
    inbound := (change d).inbound
    hasRoom := (change d).hasRoom }

namespace Adapter

inductive Event (σ : Type) where
  | addElement (e : Element)
  | removeElement (name : String)
  | setElementTx (name : String) (on : Bool)
  | setElementRx (name : String) (on : Bool)
  | setPolicy (policy : Policy)
  | bindVif (name : String) (address : LinkAddress)
  | unbindVif
  | setShadow (shadow : Bool)
  | bindSource (source : σ)
  | unbindSource
  | setRateLimit (bytesPerSecond : Float) (now : Instant)
  | setQueueDepth (pool : Pool) (depth : QueueDepth)
  | send (f : Frame)
  | transmit (pool : Pool) (f : Frame) (priority : Bool) (now : Instant)
  | onTimer (pool : Pool) (now : Instant)
  | onOutputReady (pool : Pool) (now : Instant)
  | onSourceReady (pool : Pool) (now : Instant)
  | close (pool : Pool)
  /-- The far ends of the channels change. -/
  | channels (change : Device → Device)
  /-- The producer behind the source changes. -/
  | producer (change : σ → σ)

variable {σ : Type} [FrameSource σ]

/-- The adapter after a request that names an element; an unknown name changes nothing. -/
def orSame (a : Adapter σ) : Except AdapterError (Adapter σ) → Adapter σ
  | .ok b => b
  | .error _ => a

def next (a : Adapter σ) : Event σ → Except ClockFault (Adapter σ)
  | .addElement e => .ok (a.addElement e)
  | .removeElement name => .ok (a.orSame ((a.removeElement name).map (·.2)))
  | .setElementTx name on => .ok (a.orSame (a.setElementTx name on))
  | .setElementRx name on => .ok (a.orSame (a.setElementRx name on))
  | .setPolicy policy => .ok (a.setPolicy policy)
  | .bindVif name address => .ok (a.bindVif name address)
  | .unbindVif => .ok a.unbindVif
  | .setShadow shadow => .ok (a.setShadow shadow)
  | .bindSource source => .ok (a.bindSource source)
  | .unbindSource => .ok a.unbindSource
  | .setRateLimit rate now => a.setRateLimit rate now
  | .setQueueDepth pool depth => .ok (a.setQueueDepth pool depth).1
  | .send f => .ok (a.send f).2
  | .transmit pool f priority now => (a.transmit pool f priority now).map (·.2.1)
  | .onTimer pool now => (a.onTimer pool now).map (·.2.1)
  | .onOutputReady pool now => (a.onOutputReady pool now).map (·.1)
  | .onSourceReady pool now => (a.onSourceReady pool now).map (·.1)
  | .close pool => .ok (a.close pool).1
  | .channels change => .ok (a.mapElements fun e => { e with device := e.device.meanwhile change })
  | .producer change => .ok { a with source := a.source.map change }

inductive Reachable : Adapter σ → Prop where
  | new (owner : InterfaceId) (name : String) : Reachable (new owner name)
  | next {a b : Adapter σ} (e : Event σ) : Reachable a → a.next e = .ok b → Reachable b

end Adapter
end MulticastRelay
