/-! # Readiness

A channel is told which kinds of readiness its holder waits for. Only changes are passed on, so a
repeated start or stop goes unnoticed.
-/
namespace MulticastRelay

/-- The readiness that a holder waits for. -/
structure Interest where
  input : Bool := false
  output : Bool := false
deriving DecidableEq, Repr

/-- What a poll found. -/
inductive Readiness where
  | readable
  | writable
  | readWrite
  | nothing
deriving DecidableEq, Repr

/-- Whether a request changed the interest, so that the channel must be told. -/
inductive Transition where
  | changed
  | unchanged
deriving DecidableEq, Repr

namespace Readiness

def ofFlags : (readable writable : Bool) → Readiness
  | true, true => .readWrite
  | true, false => .readable
  | false, true => .writable
  | false, false => .nothing

/-- All that an interest asks for. -/
def ofInterest (i : Interest) : Readiness := ofFlags i.input i.output

def isReadable : Readiness → Bool
  | .readable | .readWrite => true
  | .writable | .nothing => false

def isWritable : Readiness → Bool
  | .writable | .readWrite => true
  | .readable | .nothing => false

end Readiness

namespace Transition

def ofChange (changed : Bool) : Transition := if changed then .changed else .unchanged

def isChanged : Transition → Bool
  | .changed => true
  | .unchanged => false

end Transition

namespace Interest

def isEmpty (i : Interest) : Bool := !i.input && !i.output

def setInput (i : Interest) (on : Bool) : Transition × Interest :=
  (.ofChange (i.input != on), { i with input := on })

def setOutput (i : Interest) (on : Bool) : Transition × Interest :=
  (.ofChange (i.output != on), { i with output := on })

end Interest
end MulticastRelay
