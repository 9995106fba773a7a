import MulticastRelay.Channel.Composite
import MulticastRelay.Proofs.Channel.Mirroring

/-! # Inlet

What an element may capture: the frames that wait at its device, and whether they may be received.
Frames leave this line only when they are received, first the one that has waited longest; sending and
registering for output leave it alone.
-/
namespace MulticastRelay

/-- The capturing side of an element. -/
structure Inlet where
  /-- Frames waiting to be received. -/
  pending : List (Frame × Direction)
  enabled : Bool
  /-- Whether polls look for input. -/
  registered : Bool
  isClosed : Bool
deriving DecidableEq, Repr

namespace Inlet

/-- The inlet once so many frames have been received. -/
def drop (i : Inlet) (k : Nat) : Inlet := { i with pending := i.pending.drop k }

@[simp] theorem drop_zero (i : Inlet) : i.drop 0 = i := rfl

theorem drop_drop (i : Inlet) (j k : Nat) : (i.drop j).drop k = i.drop (k + j) := by
  unfold drop
  rw [List.drop_drop, Nat.add_comm]

end Inlet

/-- What a line of frames comes to in buffers of a size: the inbound frames, cut to the size, of which
something is left. -/
def framesOf (size : Nat) (line : List (Frame × Direction)) : List Frame :=
  ((line.filter (·.2 = .inbound)).map fun x => x.1.take size).filter (!·.isEmpty)

section Frames

variable {size : Nat} {f : Frame} {line : List (Frame × Direction)}

theorem framesOf_inbound : framesOf size ((f, .inbound) :: line) =
    if (f.take size).isEmpty then framesOf size line else f.take size :: framesOf size line := by
  unfold framesOf
  rw [List.filter_cons_of_pos (by rfl), List.map_cons, List.filter_cons]
  cases (f.take size).isEmpty <;> rfl

end Frames

namespace Element

def inlet (e : Element) : Inlet :=
  ⟨e.device.inbound, e.rxEnabled, e.interest.input, e.device.isClosed⟩

/-! ## What leaves the inlet alone -/

theorem offer_inbound (d : Device) (f : Frame) :
    (d.offer f).2.inbound = d.inbound ∧ (d.offer f).2.isClosed = d.isClosed := by
  rw [Device.offer_device]
  unfold Device.offered
  split <;> exact ⟨rfl, rfl⟩

@[simp] theorem send_inlet (e : Element) (f : Frame) (source : Option LinkAddress) :
    (e.send f source).2.inlet = e.inlet := by
  obtain ⟨hi, hc⟩ := offer_inbound e.device (f.leavingAs source)
  rw [Device.offer_device] at hi hc
  rw [send_eq]
  show Inlet.mk _ e.rxEnabled e.interest.input _ = _
  unfold offered inlet
  dsimp only
  rw [hi, hc]

@[simp] theorem setOutput_inlet (e : Element) (on : Bool) : (e.setOutput on).inlet = e.inlet := by
  unfold setOutput Interest.setOutput
  cases Transition.ofChange (e.interest.output != on) <;> rfl

@[simp] theorem startOutput_inlet (e : Element) : e.startOutput.inlet = e.inlet :=
  setOutput_inlet e true

@[simp] theorem stopOutput_inlet (e : Element) : e.stopOutput.inlet = e.inlet :=
  setOutput_inlet e false

end Element

/-! ## Sends through several elements

What a send keeps of each element, a send by any policy keeps of all.
-/

section Kept

variable {β : Type} {g : Element → β} {f : Frame} {source : Option LinkAddress}

theorem Mirror.send_map (hg : ∀ e : Element, g (e.send f source).2 = g e) (es : List Element) :
    (Mirror.send es f source).2.map g = es.map g := by
  unfold Mirror.send
  rw [Mirror.offer_elements, List.map_map]
  refine List.map_congr_left fun e _ => ?_
  simp only [Function.comp_apply]
  split
  · rw [← hg e, Element.send_eq]
  · rfl

theorem RoundRobin.offer_map (hg : ∀ e : Element, g (e.send f source).2 = g e) (is : List Nat)
    (attempts : Nat) (blocked : Bool) (es : List Element) :
    (RoundRobin.offer f source is attempts blocked es).2.map g = es.map g := by
  induction is generalizing attempts blocked es with
  | nil => rfl
  | cons i is ih =>
    unfold RoundRobin.offer
    cases he : es[i]? with
    | none => exact ih attempts blocked es
    | some e =>
      have hset : (es.set i (e.send f source).2).map g = es.map g := by
        obtain ⟨hi, rfl⟩ := List.getElem?_eq_some_iff.1 he
        rw [List.map_set, hg, ← List.getElem_map g (h := by simpa using hi), List.set_getElem_self]
      dsimp only
      split
      · split
        · exact hset
        · exact (ih _ _ _).trans hset
        · exact (ih _ _ _).trans hset
      · exact ih attempts blocked es

theorem Composite.send_map (hg : ∀ e : Element, g (e.send f source).2 = g e) (c : Composite) :
    (c.send f source).2.elements.map g = c.elements.map g := by
  unfold Composite.send
  match hc : c.elements with
  | [] => exact congrArg (List.map g) hc
  | [e] =>
    dsimp only
    split
    · exact congrArg (· :: []) (hg e)
    · exact congrArg (List.map g) hc
  | e₁ :: e₂ :: es =>
    dsimp only
    cases c.policy with
    | mirror => exact Mirror.send_map hg (e₁ :: e₂ :: es)
    | roundRobin => exact RoundRobin.offer_map hg _ _ _ (e₁ :: e₂ :: es)

end Kept

theorem Composite.send_inlets (c : Composite) (f : Frame) (source : Option LinkAddress) :
    (c.send f source).2.elements.map Element.inlet = c.elements.map Element.inlet :=
  c.send_map fun e => e.send_inlet f source

end MulticastRelay
