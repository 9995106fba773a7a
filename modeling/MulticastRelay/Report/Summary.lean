import MulticastRelay.Node.Turn
import MulticastRelay.Report.Units

/-! # Reports

Summaries of adapters and of ingress, as single lines and as a table.
-/
namespace MulticastRelay

/-- What a report says of an element. -/
structure ElementSummary where
  name : String
  counters : ElementCounters := {}
deriving DecidableEq, Repr

/-- What a report says of an adapter. -/
structure AdapterSummary where
  name : String
  policy : Policy
  rate : RateLimit
  depth : QueueDepth
  queueLength : Nat
  counters : AdapterCounters := {}
  elements : List ElementSummary := []
deriving Repr

def Element.summary (e : Element) : ElementSummary := ⟨e.name, e.counters⟩

def Adapter.summary {σ : Type} (a : Adapter σ) : AdapterSummary :=
  { name := a.name
    policy := a.composite.policy
    rate := a.rate
    depth := a.queue.depth
    queueLength := a.queueLength
    counters := a.counters
    elements := a.elements.map Element.summary }

/-- Summaries of the adapters of a node, in ascending order of interface. -/
def Node.summaries (n : Node) : List AdapterSummary := n.stations.adapters.map (·.summary)

namespace Report

def blanks (n : Nat) : String := String.ofList (List.replicate n ' ')

/-- Text at the left of a column. -/
def left (width : Nat) (text : String) : String := text ++ blanks (width - text.length)

/-- Text at the right of a column. -/
def right (width : Nat) (text : String) : String := blanks (width - text.length) ++ text

def number (width n : Nat) : String := right width (toString n)

def depthText (d : QueueDepth) : String :=
  if d.toConfig < 0 then "∞" else toString d.toConfig

/-- One line on an adapter. -/
def adapterLine (a : AdapterSummary) : String :=
  s!"{a.name} [{a.policy.token} @ {rate a.rate}] sent {a.counters.framesSent} " ++
    s!"({volume a.counters.bytesSent}) queued {a.queueLength}/{depthText a.depth} " ++
    s!"dropped {a.counters.framesDropped}"

/-- One line on ingress. -/
def ingressLine (c : IngressCounters) : String :=
  s!"Received: {c.framesReceived} | Relayed: {c.relayed} | Duplicates: {c.duplicates} | " ++
    s!"Expired: {c.expired} | Undelivered: {c.undelivered}"

/-- A row of the table from its cells. -/
def row (name policy sent queued dropped errors : String) : String :=
  "│ " ++ name ++ " │ " ++ left 11 policy ++ " │ " ++ left 10 sent ++ " │ " ++ queued ++ " │" ++
    dropped ++ "│ " ++ errors ++ " │"

def elementRow (e : ElementSummary) : String :=
  row ("  " ++ left 6 e.name) "" (volume e.counters.bytesSent) (number 6 e.counters.wouldBlock)
    (blanks 5) (number 5 e.counters.failures)

def adapterRows (a : AdapterSummary) : List String :=
  row (left 8 a.name) a.policy.token (volume a.counters.bytesSent) (number 6 a.queueLength)
    (number 5 a.counters.framesDropped) (number 5 a.counters.sendErrors) ::
  a.elements.map elementRow

/-- The table of adapters, line by line. -/
def tableLines (adapters : List AdapterSummary) (up : Duration) : List String :=
  ["",
   "┌─────────────────────────────────────────────────────────────┐",
   "│ FORWARDING STATISTICS  (uptime " ++ right 12 (uptime up) ++ ")                 │",
   "├──────────┬─────────────┬────────────┬────────┬─────┬───────┤",
   "│ Iface    │ Policy      │ Sent       │ Queued │ Drop│ Error │",
   "├──────────┼─────────────┼────────────┼────────┼─────┼───────┤"] ++
  adapters.flatMap adapterRows ++
  ["└──────────┴─────────────┴────────────┴────────┴─────┴───────┘"]

/-- The table of adapters, each line ended. -/
def table (adapters : List AdapterSummary) (up : Duration) : String :=
  String.join ((tableLines adapters up).map (· ++ "\n"))

end Report
end MulticastRelay
