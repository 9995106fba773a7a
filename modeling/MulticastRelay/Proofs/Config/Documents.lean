import Mathlib
import MulticastRelay.Config.Apply

/-! # Configurations read back

A section is written as cells, each with its name and the value it holds, if any. Under distinct names
each cell is found again under its own name, and one that was skipped is read as the default, which is
what it held. So the document of a configuration reads as the same configuration.
-/
/-! ## Values compared -/

namespace MulticastRelay.Toml

mutual

/-- Whether two values are written alike. -/
def Value.same : Value → Value → Bool
  | .text s, .text t => s == t
  | .integer i, .integer j => i == j
  | .float x, .float y => x.bits == y.bits
  | .boolean a, .boolean b => a == b
  | .dateTime, .dateTime => true
  | .array vs, .array ws => sameItems vs ws
  | .table k es, .table l fs => k == l && sameEntries es fs
  | .tables ts, .tables us => sameTables ts us
  | _, _ => false

def sameItems : List Value → List Value → Bool
  | [], [] => true
  | v :: vs, w :: ws => v.same w && sameItems vs ws
  | _, _ => false

def sameEntries : Entries → Entries → Bool
  | [], [] => true
  | (k, v) :: es, (l, w) :: fs => k == l && v.same w && sameEntries es fs
  | _, _ => false

def sameTables : List Entries → List Entries → Bool
  | [], [] => true
  | es :: ts, fs :: us => sameEntries es fs && sameTables ts us
  | _, _ => false

end

mutual

theorem Value.eq_of_same : ∀ {v w : Value}, v.same w = true → v = w
  | .text _, w, h | .integer _, w, h | .boolean _, w, h | .dateTime, w, h => by
    cases w <;> simp_all [Value.same]
  | .float ⟨x⟩, w, h => by
    cases w <;> simp_all [Value.same]
  | .array vs, w, h => by
    cases w with
    | array ws =>
      rw [Value.same] at h
      rw [eq_of_sameItems h]
    | _ => simp [Value.same] at h
  | .table k es, w, h => by
    cases w with
    | table l fs =>
      rw [Value.same, Bool.and_eq_true] at h
      obtain ⟨hk, hes⟩ := h
      rw [eq_of_beq hk, eq_of_sameEntries hes]
    | _ => simp [Value.same] at h
  | .tables ts, w, h => by
    cases w with
    | tables us =>
      rw [Value.same] at h
      rw [eq_of_sameTables h]
    | _ => simp [Value.same] at h

theorem eq_of_sameItems : ∀ {vs ws : List Value}, sameItems vs ws = true → vs = ws
  | [], [], _ => rfl
  | [], _ :: _, h | _ :: _, [], h => by simp [sameItems] at h
  | v :: vs, w :: ws, h => by
    rw [sameItems, Bool.and_eq_true] at h
    obtain ⟨hv, hvs⟩ := h
    rw [Value.eq_of_same hv, eq_of_sameItems hvs]

theorem eq_of_sameEntries : ∀ {es fs : Entries}, sameEntries es fs = true → es = fs
  | [], [], _ => rfl
  | [], _ :: _, h | _ :: _, [], h => by simp [sameEntries] at h
  | (k, v) :: es, (l, w) :: fs, h => by
    rw [sameEntries, Bool.and_eq_true, Bool.and_eq_true] at h
    obtain ⟨⟨hk, hv⟩, hes⟩ := h
    rw [eq_of_beq hk, Value.eq_of_same hv, eq_of_sameEntries hes]

theorem eq_of_sameTables : ∀ {ts us : List Entries}, sameTables ts us = true → ts = us
  | [], [], _ => rfl
  | [], _ :: _, h | _ :: _, [], h => by simp [sameTables] at h
  | es :: ts, fs :: us, h => by
    rw [sameTables, Bool.and_eq_true] at h
    obtain ⟨hes, hts⟩ := h
    rw [eq_of_sameEntries hes, eq_of_sameTables hts]

end

end MulticastRelay.Toml

namespace MulticastRelay.Config

open Toml (Value Entries)

/-! ## Cells -/

/-- A field with its value, if it is written. -/
abbrev Cell := String × Option Value

/-- The entries of the cells that hold something. -/
def written (cells : List Cell) : Entries := cells.filterMap fun c => c.2.map (c.1, ·)

theorem field_append_written (name : String) (v : Value) (cells : List Cell) :
    field name v ++ written cells = written ((name, some v) :: cells) := rfl

theorem optionField_append_written (name : String) (v : Option Value) (cells : List Cell) :
    optionField name v ++ written cells = written ((name, v) :: cells) := by
  cases v <;> rfl

/-- What a list is written as. -/
def listValue (items : List Value) : Option Value :=
  if items.isEmpty then none else some (.array items)

theorem listField_append_written (name : String) (items : List Value) (cells : List Cell) :
    listField name items ++ written cells = written ((name, listValue items) :: cells) := by
  cases items <;> rfl

/-- Under distinct names a field is found in its own cell. -/
theorem lookup_written {cells : List Cell} (h : (cells.map Prod.fst).Nodup) {name : String}
    {v : Option Value} (hc : (name, v) ∈ cells) : (written cells).lookup name = v := by
  have habsent : ∀ cells : List Cell, name ∉ cells.map Prod.fst →
      (written cells).lookup name = none := by
    intro cells hname
    rw [List.lookup_eq_none_iff]
    intro entry hentry
    obtain ⟨c, hcell, hput⟩ := List.mem_filterMap.1 hentry
    obtain ⟨w, -, rfl⟩ := Option.map_eq_some_iff.1 hput
    rw [bne_iff_ne]
    rintro rfl
    exact hname (List.mem_map_of_mem hcell)
  induction cells with
  | nil => cases hc
  | cons c cells ih =>
    obtain ⟨hnew, hrest⟩ := List.nodup_cons.1 h
    rcases List.mem_cons.1 hc with rfl | hc
    · cases v with
      | none => exact habsent cells hnew
      | some v => exact List.lookup_cons_self
    · have hne : name ≠ c.1 := by
        rintro rfl
        exact hnew (List.mem_map.2 ⟨_, hc, rfl⟩)
      rw [← ih hrest hc]
      obtain ⟨other, w⟩ := c
      cases w with
      | none => rfl
      | some w =>
        show ((other, w) :: written cells).lookup name = _
        rw [List.lookup_cons, beq_eq_false_iff_ne.2 hne]

/-! ## Values -/

/-- A whole number that a document can hold. -/
def InRange (i : Int) : Prop := -(numberBound : Int) ≤ i ∧ i < numberBound

instance (i : Int) : Decidable (InRange i) :=
  inferInstanceAs (Decidable (-(numberBound : Int) ≤ i ∧ i < numberBound))

theorem integer?_integer {i : Int} (h : InRange i) : integer? (.integer i) = some i := by
  rw [integer?]
  exact if_pos h

theorem natural?_integer {n : Nat} (h : n < numberBound) : natural? (.integer n) = some n := by
  have hbound : numberBound ≤ Nat.pow 2 64 := Nat.pow_le_pow_right (by decide) (by decide)
  have hlt : (n : Int) < Int.ofNat (Nat.pow 2 64) := Int.ofNat_lt.2 (Nat.lt_of_lt_of_le h hbound)
  rw [natural?, if_pos ⟨Int.natCast_nonneg n, hlt⟩, Int.toNat_natCast]

theorem policy?_token (p : Policy) : policy? (.text p.token) = some p := by
  cases p with
  | mirror => decide +kernel
  | roundRobin => decide +kernel

/-! ## Fields -/

/-- Each cell is found under its name. -/
def Fields.Hold (f : Fields) (cells : List Cell) : Prop :=
  ∀ name v position, (name, v) ∈ cells → f.field? name position = v

theorem hold_written {cells : List Cell} (h : (cells.map Prod.fst).Nodup) :
    (Fields.ofEntries (written cells)).Hold cells :=
  fun _ _ _ hc => lookup_written h hc

/-- Items that are read back one by one are read back together. -/
theorem mapM_read {α : Type} {read : Value → Option α} {put : α → Value} {xs : List α}
    (hr : ∀ x ∈ xs, read (put x) = some x) : (xs.map put).mapM read = some xs := by
  induction xs with
  | nil => rfl
  | cons x xs ih =>
    have hx := hr x List.mem_cons_self
    have hxs := ih fun y hy => hr y (List.mem_cons_of_mem _ hy)
    simp only [List.map_cons, List.mapM_cons, hx, hxs]
    rfl

namespace Fields.Hold

variable {f : Fields} {cells : List Cell} (hf : f.Hold cells)
variable {α : Type} {name : String} {position : Nat} {read : Value → Option α}

include hf

theorem required {v : Value} {a : α} (hc : (name, some v) ∈ cells) (hr : read v = some a) :
    f.required name position read = some a := by
  rw [Fields.required, hf _ _ _ hc]
  exact hr

theorem default {v : Value} {a d : α} (hc : (name, some v) ∈ cells) (hr : read v = some a) :
    f.default name position read d = some a := by
  rw [Fields.default, hf _ _ _ hc]
  exact hr

theorem option {put : α → Value} {o : Option α} (hc : (name, o.map put) ∈ cells)
    (hr : ∀ a ∈ o, read (put a) = some a) : f.option name position read = some o := by
  rw [Fields.option, hf _ _ _ hc]
  cases o with
  | none => rfl
  | some a => exact congrArg (Option.map some) (hr a rfl)

/-- A list that is empty is skipped, and read as empty. -/
theorem list {put : α → Value} {xs : List α} (hc : (name, listValue (xs.map put)) ∈ cells)
    (hr : ∀ x ∈ xs, read (put x) = some x) :
    f.default name position (listOf read) [] = some xs := by
  rw [Fields.default, hf _ _ _ hc]
  cases xs with
  | nil => rfl
  | cons x xs => exact mapM_read hr

theorem text {s : String} (hc : (name, some (.text s)) ∈ cells) :
    f.required name position text? = some s :=
  hf.required hc rfl

theorem optionalText {o : Option String} (hc : (name, o.map .text) ∈ cells) :
    f.option name position text? = some o :=
  hf.option hc fun _ _ => rfl

theorem texts {xs : List String} (hc : (name, listValue (xs.map .text)) ∈ cells) :
    f.default name position (listOf text?) [] = some xs :=
  hf.list hc fun _ _ => rfl

theorem flag {b : Bool} (hc : (name, some (.boolean b)) ∈ cells) :
    f.default name position flag? false = some b :=
  hf.default hc rfl

end Fields.Hold

/-- A field that is read makes way for what reads on. -/
theorem bind_read {α β : Type} {o : Option α} {a : α} (h : o = some a) (k : α → Option β) :
    (o >>= k) = k a := by
  rw [h]
  rfl

/-! ## Sections -/

def EngineSection.cells (s : EngineSection) : List Cell :=
  [("pool_size", some (.integer s.poolSize)), ("frame_size", some (.integer s.frameSize)),
   ("idle_tick_us", some (.integer s.idleTick)), ("default_queue", some (.integer s.defaultQueue))]

theorem EngineSection.ofValue?_toEntries {s : EngineSection} (hw : s.isWritable = true)
    (hq : InRange s.defaultQueue) : EngineSection.ofValue? (.table .header s.toEntries) = some s := by
  have hf : (Fields.ofEntries (written s.cells)).Hold s.cells := hold_written (by simp [cells])
  have table : Fields.ofValue? (.table .header s.toEntries) =
      some (Fields.ofEntries (written s.cells)) := by
    rw [show s.toEntries = written s.cells from rfl]
    rfl
  generalize Fields.ofEntries (written s.cells) = f at hf table
  simp only [isWritable, Bool.and_eq_true, decide_eq_true_eq] at hw
  obtain ⟨⟨hpool, hframe⟩, htick⟩ := hw
  have pool : f.default "pool_size" 0 natural? 1024 = some s.poolSize :=
    hf.default (by simp [cells]) (natural?_integer hpool)
  have frame : f.default "frame_size" 1 natural? 2048 = some s.frameSize :=
    hf.default (by simp [cells]) (natural?_integer hframe)
  have tick : f.default "idle_tick_us" 2 natural? 100 = some s.idleTick :=
    hf.default (by simp [cells]) (natural?_integer htick)
  have queue : f.default "default_queue" 3 integer? 64 = some s.defaultQueue :=
    hf.default (by simp [cells]) (integer?_integer hq)
  rw [ofValue?, bind_read table, bind_read pool, bind_read frame, bind_read tick, bind_read queue]
  rfl

def InterfaceEntry.cells (e : InterfaceEntry) : List Cell :=
  [("name", some (.text e.name)), ("device", e.device.map .text),
   ("devices", listValue (e.devices.map .text)), ("vif", e.vif.map .text),
   ("vif_address", e.vifAddress.map .text), ("policy", some (.text e.policy.token)),
   ("addresses", listValue (e.addresses.map fun a => .text a.render)),
   ("reliable", some (.boolean e.reliable)), ("layered", some (.boolean e.layered)),
   ("shadow", some (.boolean e.shadow)), ("block_igmp", some (.boolean e.blockIGMP)),
   ("divert_output", some (.boolean e.divertOutput)), ("rate", some (.float e.rate)),
   ("queue", e.queue.map .integer)]

theorem InterfaceEntry.toEntries_eq (e : InterfaceEntry) : e.toEntries = written e.cells := by
  rw [← List.append_nil e.toEntries]
  show _ ++ written [] = _
  simp only [toEntries, List.append_assoc, field_append_written, optionField_append_written,
    listField_append_written]
  rfl

theorem InterfaceEntry.ofValue?_toEntries {e : InterfaceEntry} (hq : ∀ q ∈ e.queue, InRange q)
    (ha : ∀ a ∈ e.addresses, IPAddress.parse? a.render = some a) :
    InterfaceEntry.ofValue? (.table .header e.toEntries) = some e := by
  have hf : (Fields.ofEntries (written e.cells)).Hold e.cells := hold_written (by simp [cells])
  have table : Fields.ofValue? (.table .header e.toEntries) =
      some (Fields.ofEntries (written e.cells)) := by
    rw [toEntries_eq]
    rfl
  generalize Fields.ofEntries (written e.cells) = f at hf table
  have name : f.required "name" 0 text? = some e.name := hf.text (by simp [cells])
  have device : f.option "device" 1 text? = some e.device := hf.optionalText (by simp [cells])
  have devices : f.default "devices" 2 (listOf text?) [] = some e.devices :=
    hf.texts (by simp [cells])
  have vif : f.option "vif" 3 text? = some e.vif := hf.optionalText (by simp [cells])
  have vifAddress : f.option "vif_address" 4 text? = some e.vifAddress :=
    hf.optionalText (by simp [cells])
  have policy : f.default "policy" 5 policy? .mirror = some e.policy :=
    hf.default (by simp [cells]) (policy?_token e.policy)
  have addresses : f.default "addresses" 6 (listOf address?) [] = some e.addresses :=
    hf.list (by simp [cells]) (show ∀ a ∈ e.addresses, address? (.text a.render) = some a from ha)
  have reliable : f.default "reliable" 7 flag? false = some e.reliable :=
    hf.flag (by simp [cells])
  have layered : f.default "layered" 8 flag? false = some e.layered := hf.flag (by simp [cells])
  have shadow : f.default "shadow" 9 flag? false = some e.shadow := hf.flag (by simp [cells])
  have blockIGMP : f.default "block_igmp" 10 flag? false = some e.blockIGMP :=
    hf.flag (by simp [cells])
  have divertOutput : f.default "divert_output" 11 flag? false = some e.divertOutput :=
    hf.flag (by simp [cells])
  have rate : f.default "rate" 12 number? (.ofFloat (-1)) = some e.rate :=
    hf.default (v := .float e.rate) (by simp [cells]) rfl
  have queue : f.option "queue" 13 integer? = some e.queue :=
    hf.option (by simp [cells]) fun q hmem => integer?_integer (hq q hmem)
  rw [ofValue?, bind_read table, bind_read name, bind_read device, bind_read devices,
    bind_read vif, bind_read vifAddress, bind_read policy, bind_read addresses, bind_read reliable,
    bind_read layered, bind_read shadow, bind_read blockIGMP, bind_read divertOutput,
    bind_read rate, bind_read queue]
  rfl

def GroupEntry.cells (g : GroupEntry) : List Cell :=
  [("name", some (.text g.name)), ("mode", some (.text g.mode)), ("relay", some (.text g.relay)),
   ("source", g.source.map .text), ("members", some (.array (g.members.map .text))),
   ("elastic", some (.boolean g.elastic)), ("unicast", some (.boolean g.unicast)),
   ("etx", some (.boolean g.pathMetric)), ("resequence", some (.boolean g.resequence)),
   ("tunnel", some (.boolean g.tunnel))]

theorem GroupEntry.toEntries_eq (g : GroupEntry) : g.toEntries = written g.cells := by
  rw [← List.append_nil g.toEntries]
  show _ ++ written [] = _
  simp only [toEntries, List.append_assoc, field_append_written, optionField_append_written]
  rfl

theorem GroupEntry.ofValue?_toEntries (g : GroupEntry) :
    GroupEntry.ofValue? (.table .header g.toEntries) = some g := by
  have hf : (Fields.ofEntries (written g.cells)).Hold g.cells := hold_written (by simp [cells])
  have table : Fields.ofValue? (.table .header g.toEntries) =
      some (Fields.ofEntries (written g.cells)) := by
    rw [toEntries_eq]
    rfl
  generalize Fields.ofEntries (written g.cells) = f at hf table
  have name : f.required "name" 0 text? = some g.name := hf.text (by simp [cells])
  have mode : f.required "mode" 1 text? = some g.mode := hf.text (by simp [cells])
  have relay : f.default "relay" 2 text? RelayType.classicalFlooding.token = some g.relay :=
    hf.default (v := .text g.relay) (by simp [cells]) rfl
  have source : f.option "source" 3 text? = some g.source := hf.optionalText (by simp [cells])
  have members : f.default "members" 4 (listOf text?) [] = some g.members :=
    hf.default (v := .array (g.members.map .text)) (by simp [cells]) (mapM_read fun _ _ => rfl)
  have elastic : f.default "elastic" 5 flag? false = some g.elastic := hf.flag (by simp [cells])
  have unicast : f.default "unicast" 6 flag? false = some g.unicast := hf.flag (by simp [cells])
  have pathMetric : f.default "etx" 7 flag? false = some g.pathMetric :=
    hf.flag (by simp [cells])
  have resequence : f.default "resequence" 8 flag? false = some g.resequence :=
    hf.flag (by simp [cells])
  have tunnel : f.default "tunnel" 9 flag? false = some g.tunnel := hf.flag (by simp [cells])
  rw [ofValue?, bind_read table, bind_read name, bind_read mode, bind_read relay,
    bind_read source, bind_read members, bind_read elastic, bind_read unicast,
    bind_read pathMetric, bind_read resequence, bind_read tunnel]
  rfl

/-! ## Documents -/

/-- What sections of one kind are written as. -/
def sectionsValue (sections : List Entries) : Value :=
  if sections.isEmpty then .array [] else .tables sections

theorem listOf_sectionsValue {α : Type} {read : Value → Option α} {put : α → Entries} {xs : List α}
    (hr : ∀ x ∈ xs, read (.table .header (put x)) = some x) :
    listOf read (sectionsValue (xs.map put)) = some xs := by
  cases xs with
  | nil => rfl
  | cons x xs =>
    show ((((x :: xs).map put).map (Value.table .header)).mapM read) = some (x :: xs)
    rw [List.map_map]
    exact mapM_read hr

/-- The order of entries with distinct keys does not matter. -/
theorem lookup_perm {es es' : Entries} {name : String} (h : es.Perm es')
    (hn : (es.map Prod.fst).Nodup) : es.lookup name = es'.lookup name := by
  induction h with
  | nil => rfl
  | cons x _ ih =>
    rw [List.lookup_cons, List.lookup_cons, ih (List.nodup_cons.1 hn).2]
  | swap x y es =>
    have hne : y.1 ≠ x.1 := fun h => (List.nodup_cons.1 hn).1 (h ▸ List.mem_cons_self)
    obtain ⟨x, v⟩ := x
    obtain ⟨y, w⟩ := y
    by_cases hx : name = x
    · rw [hx, List.lookup_cons_self, List.lookup_cons, beq_eq_false_iff_ne.2 hne.symm]
      exact List.lookup_cons_self
    · have hskip : ∀ rest : Entries, ((x, v) :: rest).lookup name = rest.lookup name := fun rest => by
        rw [List.lookup_cons, beq_eq_false_iff_ne.2 hx]
      rw [hskip, List.lookup_cons, hskip, ← List.lookup_cons]
  | trans h _ ih ih' =>
    rw [ih hn]
    exact ih' ((h.map _).nodup_iff.1 hn)

/-- Every number of a configuration fits a document. -/
structure Fits (c : Configuration) : Prop where
  engine : c.engine.isWritable = true
  defaultQueue : InRange c.engine.defaultQueue
  queues : ∀ e ∈ c.interfaces, ∀ q ∈ e.queue, InRange q

theorem ofEntries?_perm {c : Configuration} (hc : Fits c)
    (ha : ∀ e ∈ c.interfaces, ∀ a ∈ e.addresses, IPAddress.parse? a.render = some a) {es : Entries}
    (hes : es.Perm (toEntries c)) : ofEntries? es = some c := by
  have hn : ((toEntries c).map Prod.fst).Nodup := by
    show ["engine", "interface", "group"].Nodup
    simp
  have hf : ∀ name position, (Fields.ofEntries es).field? name position = (toEntries c).lookup name :=
    fun name _ => (lookup_perm hes.symm hn).symm
  have engine : (Fields.ofEntries es).default "engine" 0 EngineSection.ofValue? {} = some c.engine := by
    rw [Fields.default, hf]
    exact EngineSection.ofValue?_toEntries hc.engine hc.defaultQueue
  have interfaces : (Fields.ofEntries es).default "interface" 1 (listOf InterfaceEntry.ofValue?) [] =
      some c.interfaces := by
    rw [Fields.default, hf]
    exact listOf_sectionsValue fun e he => InterfaceEntry.ofValue?_toEntries (hc.queues e he) (ha e he)
  have groups : (Fields.ofEntries es).default "group" 2 (listOf GroupEntry.ofValue?) [] =
      some c.groups := by
    rw [Fields.default, hf]
    exact listOf_sectionsValue fun g _ => g.ofValue?_toEntries
  rw [ofEntries?, bind_read engine, bind_read interfaces, bind_read groups]
  rfl

/-! ## Equality

Configurations are compared with their rates as numbers, so one that is not a number differs from
itself.
-/

theorem InterfaceEntry.beq_self {e : InterfaceEntry} (h : e.rate.toFloat.isNaN = false) :
    (e == e) = true := by
  have hrate : (e.rate == e.rate) = true := by
    refine Float.beq_self_iff.2 fun hnan => ?_
    rw [hnan] at h
    exact absurd h (by decide +kernel)
  show instBEqInterfaceEntry.beq e e = true
  obtain ⟨_, _, _, _, _, _, _, _, _, _, _, _, rate, _⟩ := e
  simp only [instBEqInterfaceEntry.beq, beq_self_eq_true, Bool.true_and, Bool.and_true]
  exact hrate

theorem list_beq_self {α : Type} [BEq α] {xs : List α} (h : ∀ x ∈ xs, (x == x) = true) :
    (xs == xs) = true := by
  induction xs with
  | nil => rfl
  | cons x xs ih =>
    rw [List.cons_beq_cons, h x List.mem_cons_self, Bool.true_and]
    exact ih fun y hy => h y (List.mem_cons_of_mem x hy)

theorem configuration_beq_self {c : Configuration}
    (h : ∀ e ∈ c.interfaces, e.rate.toFloat.isNaN = false) : (c == c) = true := by
  have engine : (c.engine == c.engine) = true := by
    show instBEqEngineSection.beq c.engine c.engine = true
    simp only [instBEqEngineSection.beq, beq_self_eq_true, Bool.and_self]
  have interfaces : (c.interfaces == c.interfaces) = true :=
    list_beq_self fun e he => InterfaceEntry.beq_self (h e he)
  have groups : (c.groups == c.groups) = true := by
    refine list_beq_self fun g _ => ?_
    show instBEqGroupEntry.beq g g = true
    simp only [instBEqGroupEntry.beq, beq_self_eq_true, Bool.and_self]
  show (c.engine == c.engine && (c.interfaces == c.interfaces && c.groups == c.groups)) = true
  rw [engine, interfaces, groups]
  rfl

/-- The document of a configuration reads as that configuration, and so does its text wherever the text
reads as the document. -/
theorem configuration_reads_back {c : Configuration} (hc : Fits c)
    (hr : ∀ e ∈ c.interfaces, e.rate.toFloat.isNaN = false)
    (ha : ∀ e ∈ c.interfaces, ∀ a ∈ e.addresses, IPAddress.parse? a.render = some a) :
    ofEntries? (toEntries c) = some c ∧ (c == c) = true ∧
      ((∃ es, Toml.parse? (Toml.render (toEntries c)) = some es ∧ es.Perm (toEntries c)) →
        ∃ text, c.render = .ok text ∧ Configuration.parse? text = some c) := by
  refine ⟨ofEntries?_perm hc ha (.refl _), configuration_beq_self hr, ?_⟩
  rintro ⟨es, hread, hes⟩
  refine ⟨Toml.render (toEntries c), if_pos hc.engine, ?_⟩
  rw [Configuration.parse?, bind_read hread]
  exact ofEntries?_perm hc ha hes

/-- A node with one interface, which has an address and a queue of its own. -/
def addressed : Configuration :=
  { interfaces := [{ name := "a", addresses := [.v4 10 0 0 1], queue := some 3 }] }

theorem addressed_reads_back :
    ofEntries? (toEntries addressed) = some addressed ∧ (addressed == addressed) = true ∧
      ∃ text, addressed.render = .ok text ∧ Configuration.parse? text = some addressed := by
  -- lists that are empty come first, tables after them
  have hread : (Toml.parse? (Toml.render (toEntries addressed))).any (Toml.sameEntries
      [("group", .array []), ("engine", .table .header addressed.engine.toEntries),
       ("interface", .tables (addressed.interfaces.map (·.toEntries)))]) = true := by
    decide +kernel
  obtain ⟨es, hes, hsame⟩ := (Option.any_eq_true _ _).1 hread
  obtain rfl := Toml.eq_of_sameEntries hsame
  have hfits : Fits addressed :=
    ⟨by decide +kernel, by decide +kernel, by decide +kernel⟩
  obtain ⟨hdoc, heq, htext⟩ := configuration_reads_back hfits (by decide +kernel) (by decide +kernel)
  exact ⟨hdoc, heq, htext ⟨_, hes, (List.Perm.swap ..).trans ((List.Perm.swap ..).cons _)⟩⟩

end MulticastRelay.Config
