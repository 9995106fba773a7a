import MulticastRelay.Channel.Mirror
import MulticastRelay.Channel.RoundRobin

/-! # Composite devices

The elements of one interface with the policy that shares frames among them. A single element needs no
policy.
-/
namespace MulticastRelay

inductive Policy where
  /-- Every element carries every frame. -/
  | mirror
  /-- Elements take turns. -/
  | roundRobin
deriving DecidableEq, Repr

namespace Policy

def token : Policy → String
  | mirror => "mirror"
  | roundRobin => "round-robin"

/-- Reads a policy, in either case; `none` for any other word. -/
def ofToken? (text : String) : Option Policy :=
  match text.toLower with
  | "mirror" => some mirror
  | "round-robin" | "roundrobin" | "rr" => some roundRobin
  | _ => none

/-- What is said of a word that names no policy. -/
def unknownMessage (text : String) : String := "Unknown policy: " ++ text

end Policy

structure Composite where
  elements : List Element := []
  policy : Policy := .mirror
  cursor : Nat := 0
deriving DecidableEq, Repr

namespace Composite

def element? (c : Composite) (name : String) : Option Element := c.elements.find? (·.name == name)

def map (f : Element → Element) (c : Composite) : Composite := { c with elements := c.elements.map f }

/-- Changes the first element of a name. -/
def modifyFirst (name : String) (f : Element → Element) : List Element → List Element
  | [] => []
  | e :: es => if e.name = name then f e :: es else e :: modifyFirst name f es

/-- Takes out the first element of a name. -/
def detach? (c : Composite) (name : String) : Option (Element × Composite) :=
  match c.element? name with
  | none => none
  | some e =>
    let elements := c.elements.eraseP (·.name == name)
    some (e, { c with elements, cursor := RoundRobin.clamp c.cursor elements.length })

/-- Sends a frame by the policy. -/
def send (c : Composite) (f : Frame) (source : Option LinkAddress) : SendOutcome × Composite :=
  match c.elements with
  | [] => (.failed, c)
  | [e] =>
    if e.txEnabled then
      let (outcome, e) := e.send f source
      (outcome, { c with elements := [e] })
    else (.failed, c)
  | _ =>
    match c.policy with
    | .mirror =>
      let (report, elements) := Mirror.send c.elements f source
      (report.outcome, { c with elements })
    | .roundRobin =>
      let (report, cursor, elements) := RoundRobin.send c.cursor c.elements f source
      (report.outcome, { c with elements, cursor })

end Composite
end MulticastRelay
