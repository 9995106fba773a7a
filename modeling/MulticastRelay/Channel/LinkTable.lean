import MulticastRelay.Text.Blank
import MulticastRelay.Text.Digits
import MulticastRelay.Topology.Matcher

/-! # Link tables

A host describes each link by two small files: one with its index, one with its state. Links whose
index cannot be read are passed over; a link whose state cannot be read counts as down.
-/
namespace MulticastRelay

/-- The files of one link, where they exist. -/
structure LinkEntry where
  name : String
  index : Option ByteArray
  state : Option ByteArray

namespace LinkEntry

/-- The text of a file, if it is text at all. -/
def text? (file : Option ByteArray) : Option (List Char) := do
  return (← String.fromUTF8? (← file)).toList

/-- Links of unknown state are up: loopback and tunnels report no other. -/
def isUp (state : List Char) : Bool :=
  let word := String.ofList (Text.trim state)
  word == "up" || word == "unknown"

def link? (e : LinkEntry) : Option Link := do
  let index ← Text.unsigned? 10 (Nat.pow 2 32) (Text.trim (← text? e.index))
  return ⟨e.name, index, ((text? e.state).map isUp).getD false⟩

end LinkEntry

/-- The links of a host in order of index. -/
def linkTable (entries : List LinkEntry) : List Link :=
  (entries.filterMap LinkEntry.link?).mergeSort (fun a b => a.index ≤ b.index)

end MulticastRelay
