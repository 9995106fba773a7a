import MulticastRelay.Channel.Element

/-! # Mirroring

Every element enabled for transmission is offered the frame, whatever the earlier ones did.
-/
namespace MulticastRelay

structure MirrorReport where
  attempted : Nat := 0
  accepted : Nat := 0
  blocked : Nat := 0
  /-- Names of the elements that failed, in order. -/
  failed : List String := []
deriving DecidableEq, Repr

namespace MirrorReport

/-- Any acceptance wins, then a full channel, then failure. -/
def outcome (r : MirrorReport) : SendOutcome :=
  if 0 < r.accepted then .accepted else if 0 < r.blocked then .blocked else .failed

/-- Adds what the element of a name did. -/
def note (r : MirrorReport) (name : String) : SendOutcome → MirrorReport
  | .accepted => { r with attempted := r.attempted + 1, accepted := r.accepted + 1 }
  | .blocked => { r with attempted := r.attempted + 1, blocked := r.blocked + 1 }
  | .failed => { r with attempted := r.attempted + 1, failed := r.failed ++ [name] }

end MirrorReport

namespace Mirror

/-- Offers a frame to the elements of a list, adding to a report. -/
def offer (f : Frame) (source : Option LinkAddress) (r : MirrorReport) :
    List Element → MirrorReport × List Element
  | [] => (r, [])
  | e :: es =>
    if e.txEnabled then
      let (outcome, e) := e.send f source
      let (r, es) := offer f source (r.note e.name outcome) es
      (r, e :: es)
    else
      let (r, es) := offer f source r es
      (r, e :: es)

def send (es : List Element) (f : Frame) (source : Option LinkAddress) : MirrorReport × List Element :=
  offer f source {} es

end Mirror
end MulticastRelay
