import MulticastRelay.Node.Ingress
import MulticastRelay.Proofs.Adapter.Effects
import MulticastRelay.Proofs.Keyed

/-! # Frames handed over

Delivery hands one frame to adapters in turn, and a relay is two deliveries, of the frame as it was
captured and of the frame with its hop count lowered.
-/
namespace MulticastRelay

namespace Stations

def owners (s : Stations) : List InterfaceId := s.adapters.map Adapter.owner

variable {s t : Stations} {f : Frame} {priority : Bool} {now : Instant}

@[simp] theorem replace_owners (s : Stations) (a : Station) : (s.replace a).owners = s.owners :=
  Keyed.map_key_modify fun _ _ => rfl

theorem transmit_owners {a : Station} {r : Except AdapterError Delivery}
    (h : s.transmit a f priority now = .ok (r, t)) : t.owners = s.owners := by
  obtain ⟨⟨r, b, p⟩, -, h⟩ := ok_of_bind h
  cases h
  exact replace_owners s b

theorem deliver_owners (destinations : List InterfaceId) {r r' : DispatchReport}
    (h : deliver f priority now destinations r s = .ok (r', t)) : t.owners = s.owners := by
  induction destinations generalizing r s with
  | nil =>
    cases h
    rfl
  | cons dest rest ih =>
    unfold deliver at h
    split at h
    · exact ih h
    · obtain ⟨⟨result, u⟩, hu, h⟩ := ok_of_bind h
      exact (ih h).trans (transmit_owners hu)

theorem dispatch_owners {destinations : List InterfaceId} {r : DispatchReport}
    (h : s.dispatch destinations f now = .ok (r, t)) : t.owners = s.owners :=
  deliver_owners destinations h

end Stations

namespace Node

variable {s t u : Stations} {tunnelled plain : List InterfaceId} {f g : Frame} {now : Instant}
  {r : DispatchReport} {expired : Bool}

/-- How a relay goes on once the tunnels have the frame. -/
theorem relay_eq (s : Stations) (tunnelled plain : List InterfaceId) (f : Frame) (now : Instant) :
    relay s tunnelled plain f now = do
      let (report, s) ← s.dispatch tunnelled f now
      if plain.isEmpty then return (f, report, false, s)
      else match Frame.lowerHopCount f with
        | (.expired, f) => return (f, report, true, s)
        | (_, f) =>
          let (more, s) ← s.dispatch plain f now
          return (f, report ++ more, false, s) := by
  cases tunnelled with
  | nil => rfl
  | cons dest rest => rfl

theorem relay_owners (h : relay s tunnelled plain f now = .ok (g, r, expired, t)) :
    t.owners = s.owners := by
  rw [relay_eq] at h
  obtain ⟨⟨report, u⟩, hu, h⟩ := ok_of_bind h
  have ho := Stations.dispatch_owners hu
  dsimp only at h
  split at h
  · cases h
    exact ho
  · split at h
    · cases h
      exact ho
    · obtain ⟨⟨more, v⟩, hv, h⟩ := ok_of_bind h
      cases h
      exact (Stations.dispatch_owners hv).trans ho

end Node
end MulticastRelay
