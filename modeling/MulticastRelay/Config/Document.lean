import MulticastRelay.Config.Basic
import MulticastRelay.Toml.Document

/-! # Configurations as documents

A configuration in the form of a TOML table, in both directions. Writing skips options that are absent
and some lists that are empty; reading puts the defaults in their place and passes over keys it does
not know. A section may also be given as an array of its fields in order.
-/
namespace MulticastRelay.Config

open Toml (Value Entries)

/-! ## Reading -/

/-- The fields of a section, by name and by position. -/
structure Fields where
  field? : String → Nat → Option Value

namespace Fields

def ofEntries (es : Entries) : Fields := ⟨fun name _ => es.lookup name⟩

/-- The fields of a table or of an array. A date counts as a table without fields. -/
def ofValue? : Value → Option Fields
  | .table _ es => some (ofEntries es)
  | .dateTime => some (ofEntries [])
  | .array items => some ⟨fun _ i => items[i]?⟩
  | .tables items => some ⟨fun _ i => items[i]?.map (Value.table .header)⟩
  | _ => none

variable {α : Type}

/-- A field that must be there. -/
def required (f : Fields) (name : String) (position : Nat) (read : Value → Option α) : Option α :=
  f.field? name position >>= read

/-- A field with a default. -/
def default (f : Fields) (name : String) (position : Nat) (read : Value → Option α) (a : α) : Option α :=
  match f.field? name position with
  | some v => read v
  | none => some a

/-- A field that may be absent. -/
def option (f : Fields) (name : String) (position : Nat) (read : Value → Option α) : Option (Option α) :=
  match f.field? name position with
  | some v => (read v).map some
  | none => some none

end Fields

def text? : Value → Option String
  | .text s => some s
  | _ => none

def flag? : Value → Option Bool
  | .boolean b => some b
  | _ => none

/-- A number of sixty-four bits with a sign. -/
def integer? : Value → Option Int
  | .integer i => if -Int.ofNat (Nat.pow 2 63) ≤ i ∧ i < Int.ofNat (Nat.pow 2 63) then some i else none
  | _ => none

/-- A number of sixty-four bits without a sign. -/
def natural? : Value → Option Nat
  | .integer i => if 0 ≤ i ∧ i < Int.ofNat (Nat.pow 2 64) then some i.toNat else none
  | _ => none

/-- A number with or without a fraction. -/
def number? : Value → Option Decimal.Binary64
  | .float x => some x
  | .integer i => some (.ofFloat (Float.ofInt i))
  | _ => none

def items? : Value → Option (List Value)
  | .array items => some items
  | .tables items => some (items.map (.table .header))
  | _ => none

def listOf {α : Type} (read : Value → Option α) (v : Value) : Option (List α) := do
  (← items? v).mapM read

def address? (v : Value) : Option IPAddress := text? v >>= IPAddress.parse?

def policyNamed? (name : String) : Option Policy :=
  [Policy.mirror, .roundRobin].find? (·.token == name)

def isEmptyValue : Value → Bool
  | .array items => items.isEmpty
  | .tables items => items.isEmpty
  | .table _ es => es.isEmpty
  | _ => false

/-- A policy by its exact name, or as the key of a table with nothing under it. -/
def policy? : Value → Option Policy
  | .text s => policyNamed? s
  | .table _ [(name, v)] => if isEmptyValue v then policyNamed? name else none
  | _ => none

def EngineSection.ofValue? (v : Value) : Option EngineSection := do
  let f ← Fields.ofValue? v
  return {
    poolSize := ← f.default "pool_size" 0 natural? 1024
    frameSize := ← f.default "frame_size" 1 natural? 2048
    idleTick := ← f.default "idle_tick_us" 2 natural? 100
    defaultQueue := ← f.default "default_queue" 3 integer? 64 }

def InterfaceEntry.ofValue? (v : Value) : Option InterfaceEntry := do
  let f ← Fields.ofValue? v
  return {
    name := ← f.required "name" 0 text?
    device := ← f.option "device" 1 text?
    devices := ← f.default "devices" 2 (listOf text?) []
    vif := ← f.option "vif" 3 text?
    vifAddress := ← f.option "vif_address" 4 text?
    policy := ← f.default "policy" 5 policy? .mirror
    addresses := ← f.default "addresses" 6 (listOf address?) []
    reliable := ← f.default "reliable" 7 flag? false
    layered := ← f.default "layered" 8 flag? false
    shadow := ← f.default "shadow" 9 flag? false
    blockIGMP := ← f.default "block_igmp" 10 flag? false
    divertOutput := ← f.default "divert_output" 11 flag? false
    rate := ← f.default "rate" 12 number? (.ofFloat (-1))
    queue := ← f.option "queue" 13 integer? }

def GroupEntry.ofValue? (v : Value) : Option GroupEntry := do
  let f ← Fields.ofValue? v
  return {
    name := ← f.required "name" 0 text?
    mode := ← f.required "mode" 1 text?
    relay := ← f.default "relay" 2 text? RelayType.classicalFlooding.token
    source := ← f.option "source" 3 text?
    members := ← f.default "members" 4 (listOf text?) []
    elastic := ← f.default "elastic" 5 flag? false
    unicast := ← f.default "unicast" 6 flag? false
    pathMetric := ← f.default "etx" 7 flag? false
    resequence := ← f.default "resequence" 8 flag? false
    tunnel := ← f.default "tunnel" 9 flag? false }

def ofEntries? (es : Entries) : Option Configuration := do
  let f := Fields.ofEntries es
  return {
    engine := ← f.default "engine" 0 EngineSection.ofValue? {}
    interfaces := ← f.default "interface" 1 (listOf InterfaceEntry.ofValue?) []
    groups := ← f.default "group" 2 (listOf GroupEntry.ofValue?) [] }

/-! ## Writing -/

/-- A field that is written always. -/
def field (name : String) (v : Value) : Entries := [(name, v)]

/-- A field that is written when it is there. -/
def optionField (name : String) : Option Value → Entries
  | some v => [(name, v)]
  | none => []

/-- A list that is written when it is not empty. -/
def listField (name : String) (items : List Value) : Entries :=
  if items.isEmpty then [] else [(name, .array items)]

def EngineSection.toEntries (s : EngineSection) : Entries :=
  field "pool_size" (.integer s.poolSize) ++
  field "frame_size" (.integer s.frameSize) ++
  field "idle_tick_us" (.integer s.idleTick) ++
  field "default_queue" (.integer s.defaultQueue)

def InterfaceEntry.toEntries (e : InterfaceEntry) : Entries :=
  field "name" (.text e.name) ++
  optionField "device" (e.device.map .text) ++
  listField "devices" (e.devices.map .text) ++
  optionField "vif" (e.vif.map .text) ++
  optionField "vif_address" (e.vifAddress.map .text) ++
  field "policy" (.text e.policy.token) ++
  listField "addresses" (e.addresses.map fun a => .text a.render) ++
  field "reliable" (.boolean e.reliable) ++
  field "layered" (.boolean e.layered) ++
  field "shadow" (.boolean e.shadow) ++
  field "block_igmp" (.boolean e.blockIGMP) ++
  field "divert_output" (.boolean e.divertOutput) ++
  field "rate" (.float e.rate) ++
  optionField "queue" (e.queue.map .integer)

def GroupEntry.toEntries (g : GroupEntry) : Entries :=
  field "name" (.text g.name) ++
  field "mode" (.text g.mode) ++
  field "relay" (.text g.relay) ++
  optionField "source" (g.source.map .text) ++
  field "members" (.array (g.members.map .text)) ++
  field "elastic" (.boolean g.elastic) ++
  field "unicast" (.boolean g.unicast) ++
  field "etx" (.boolean g.pathMetric) ++
  field "resequence" (.boolean g.resequence) ++
  field "tunnel" (.boolean g.tunnel)

/-- Sections as tables with one header, or an empty array. -/
def sectionsField (name : String) (sections : List Entries) : Entries :=
  [(name, if sections.isEmpty then .array [] else .tables sections)]

def toEntries (c : Configuration) : Entries :=
  field "engine" (.table .header c.engine.toEntries) ++
  sectionsField "interface" (c.interfaces.map (·.toEntries)) ++
  sectionsField "group" (c.groups.map (·.toEntries))

end MulticastRelay.Config
