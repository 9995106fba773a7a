import MulticastRelay.Proofs.Channel.Takers

/-! # Offers to all

A device meets each offer by the next verdict of its script, and what one offer does to an element is
said here from that verdict alone. Mirroring makes one such offer to each element that is enabled, in
order and whatever came of the earlier ones, and its report counts how the offers ended.
-/
namespace MulticastRelay

/-! ## One offer -/

namespace Device

variable {d : Device} {f : Frame}

/-- How the channel takes the next frame, unless it is closed. -/
def verdict (d : Device) : Verdict := d.script.headD d.otherwise

/-- How the next offer ends. -/
def answer (d : Device) : SendOutcome :=
  if d.isClosed then .failed
  else match d.verdict with
    | .accept => .accepted
    | .block => .blocked
    | .fail => .failed

/-- The device after one offer: a verdict is used up, and a frame that was accepted is sent. Closed, it
stays as it is. -/
def offered (d : Device) (f : Frame) : Device :=
  if d.isClosed then d
  else { d with
    script := d.script.tail
    sent := if d.verdict = .accept then d.sent ++ [f] else d.sent }

theorem offer_device (d : Device) (f : Frame) : (d.offer f).2 = d.offered f := by
  unfold offer offered verdict
  split
  · rfl
  · cases d.script with
    | nil => cases d.otherwise <;> rfl
    | cons v rest => cases v <;> rfl

theorem offer_answer (d : Device) (f : Frame) :
    (d.answer = .accepted ∧ (d.offer f).1 = .ok (.accepted f.length)) ∨
      (d.answer = .blocked ∧ (d.offer f).1 = .ok .wouldBlock) ∨
      (d.answer = .failed ∧ ∃ e, (d.offer f).1 = .error e) := by
  unfold offer answer verdict
  split
  · exact .inr (.inr ⟨rfl, _, rfl⟩)
  · cases d.script with
    | nil => cases d.otherwise <;> simp
    | cons v rest => cases v <;> simp

end Device

/-- The counters after one offer of so many bytes. -/
def ElementCounters.after (c : ElementCounters) (bytes : Nat) : SendOutcome → ElementCounters
  | .accepted => { c with framesSent := c.framesSent + 1, bytesSent := c.bytesSent + bytes }
  | .blocked => { c with wouldBlock := c.wouldBlock + 1 }
  | .failed => { c with failures := c.failures + 1 }

/-- Another source address takes the place of the old one. -/
theorem Frame.length_leavingAs (f : Frame) (source : Option LinkAddress) :
    (f.leavingAs source).length = f.length := by
  cases source with
  | none => rfl
  | some a =>
    show (f.setSource a).length = f.length
    unfold setSource
    split
    · have := a.length_octets
      simp only [List.length_append, List.length_take, List.length_drop]
      omega
    · rfl

namespace Element

/-- How the element answers the next offer. -/
def answer (e : Element) : SendOutcome := e.device.answer

/-- The element after one offer. -/
def offered (e : Element) (f : Frame) (source : Option LinkAddress) : Element :=
  { e with
    device := e.device.offered (f.leavingAs source)
    counters := e.counters.after f.length e.answer }

theorem send_eq (e : Element) (f : Frame) (source : Option LinkAddress) :
    e.send f source = (e.answer, e.offered f source) := by
  have hd := e.device.offer_device (f.leavingAs source)
  unfold send offered answer
  rw [Device.offerAs_eq, ← hd, ← f.length_leavingAs source]
  rcases e.device.offer_answer (f.leavingAs source) with ⟨ha, ho⟩ | ⟨ha, ho⟩ | ⟨ha, x, ho⟩
  all_goals
    rw [ha]
    cases hp : e.device.offer (f.leavingAs source) with
    | mk result d =>
      rw [hp] at ho
      cases ho
      rfl

end Element

/-! ## Offers to all -/

namespace Mirror

variable {f : Frame} {source : Option LinkAddress} {es : List Element}

/-- The elements that are asked to take a frame. -/
def asked (es : List Element) : List Element := es.filter (·.txEnabled)

/-- How many of some elements answer so. -/
def tally (answer : SendOutcome) (es : List Element) : Nat := es.countP (·.answer = answer)

theorem offer_elements (r : MirrorReport) (es : List Element) :
    (offer f source r es).2 = es.map fun e => if e.txEnabled then e.offered f source else e := by
  induction es generalizing r with
  | nil => rfl
  | cons e es ih =>
    unfold offer
    by_cases ht : e.txEnabled = true
    · simp only [if_pos ht, ih, List.map_cons, e.send_eq]
    · simp only [if_neg ht, ih, List.map_cons]

/-- The second of four channels is full and the third is out of order; the fourth gets the frame. -/
example :
    let es : List Element := [{ device := { name := "eth0" }, txEnabled := false },
      .new { name := "eth1", script := [.block] }, .new { name := "eth2", script := [.fail] },
      .new { name := "eth3" }]
    (send es [7] none).1 = { attempted := 3, accepted := 1, blocked := 1, failed := ["eth2"] } ∧
      (send es [7] none).2.map Element.sent = [[], [], [], [[7]]] := by
  decide

end Mirror
end MulticastRelay
