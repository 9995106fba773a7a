import MulticastRelay.Channel.Device
import MulticastRelay.Frame.Control
import MulticastRelay.Pool

/-! # Frame sources

A source feeds an adapter with frames of its own accord, typically those of a software interface. Held
back by a full queue, it is suspended and later resumed.
-/
namespace MulticastRelay

/-- What an adapter asks of a source: the next frame in a buffer from the pool, with whether it is
control traffic. -/
class FrameSource (σ : Type) where
  pull : σ → Pool → Option (Buffer × Bool) × σ × Pool
  suspend : σ → σ
  resume : σ → σ

/-- A source that receives from a device. -/
structure DeviceSource where
  device : Device
  /-- Pulls that found the pool empty. -/
  exhausted : Nat := 0
deriving DecidableEq, Repr

namespace DeviceSource

def new (d : Device) : DeviceSource := { device := d.watchInput true }

/-- Fills the space with the next frame; the error says that nothing came. -/
def receive (d : Device) (space : List UInt8) : Except Unit Nat × List UInt8 × Device :=
  match d.receive space with
  | (.ok (some (n, _)), space, d) => (.ok n, space, d)
  | (.ok none, space, d) => (.error (), space, d)
  | (.error _, space, d) => (.error (), space, d)

def pull (s : DeviceSource) (pool : Pool) : Option (Buffer × Bool) × DeviceSource × Pool :=
  match pool.take? with
  | none => (none, { s with exhausted := s.exhausted + 1 }, pool)
  | some (buffer, pool) =>
    match buffer.fillWith (receive s.device) with
    | (.ok _, buffer, device) => (some (buffer, Frame.isControl buffer.octets), { s with device }, pool)
    | (.error _, buffer, device) => (none, { s with device }, pool.put buffer)

def suspend (s : DeviceSource) : DeviceSource := { s with device := s.device.watchInput false }

def resume (s : DeviceSource) : DeviceSource := { s with device := s.device.watchInput true }

instance : FrameSource DeviceSource := { pull, suspend, resume }

end DeviceSource
end MulticastRelay
