import MulticastRelay.Channel.Element

/-! # Round robin

Elements take turns from a cursor that stays between sends. The first element that accepts the frame
ends the round and leaves the cursor just past it.
-/
namespace MulticastRelay

structure RoundRobinReport where
  outcome : SendOutcome
  /-- Position of the element that accepted the frame. -/
  taker : Option Nat
  attempts : Nat
deriving DecidableEq, Repr

namespace RoundRobin

/-- A cursor beyond the last element goes back to the first. -/
def clamp (cursor len : Nat) : Nat := if len ≤ cursor then 0 else cursor

/-- Positions in cyclic order from a start. -/
def cycle (start len : Nat) : List Nat := (List.range len).map fun step => (start + step) % len

/-- Offers a frame at the positions of a list until an element accepts it. -/
def offer (f : Frame) (source : Option LinkAddress) :
    List Nat → (attempts : Nat) → (blocked : Bool) → List Element → RoundRobinReport × List Element
  | [], attempts, blocked, es => (⟨if blocked then .blocked else .failed, none, attempts⟩, es)
  | i :: is, attempts, blocked, es =>
    match es[i]? with
    | none => offer f source is attempts blocked es
    | some e =>
      if e.txEnabled then
        let (outcome, e) := e.send f source
        let es := es.set i e
        match outcome with
        | .accepted => (⟨.accepted, some i, attempts + 1⟩, es)
        | .blocked => offer f source is (attempts + 1) true es
        | .failed => offer f source is (attempts + 1) blocked es
      else offer f source is attempts blocked es

/-- One round from a cursor: the report, the next cursor and the elements afterwards. -/
def send (cursor : Nat) (es : List Element) (f : Frame) (source : Option LinkAddress) :
    RoundRobinReport × Nat × List Element :=
  let start := clamp cursor es.length
  let (report, es) := offer f source (cycle start es.length) 0 false es
  let next := match report.taker with
    | some i => (i + 1) % es.length
    | none => start
  (report, next, es)

end RoundRobin
end MulticastRelay
