import MulticastRelay.Config.Apply
import MulticastRelay.Proofs.Decimal.Order
import MulticastRelay.Proofs.LinkAddress
import MulticastRelay.Proofs.Topology.MatcherOrder

/-! # Saved form

A configuration in the form in which one is captured: what goes without saying is left out, and lists
stand in the order in which a node keeps them. Also what single values become when they are applied
and read back.
-/
namespace MulticastRelay

namespace Config

/-- A depth is written as zero, as minus one, or as itself. -/
def CanonicalDepth (depth : Int) : Prop := depth = 0 ∨ depth = -1 ∨ 0 < depth

/-- An interface entry in saved form, where queues of the default depth go unsaid. -/
structure InterfaceEntry.Saved (defaultQueue : Int) (e : InterfaceEntry) : Prop where
  name : e.name.toList.getLast? ≠ some wildcardMark
  device : e.device ≠ some e.name
  devices : e.devices.length ≠ 1
  oneOrMany : e.device = none ∨ e.devices = []
  vif : e.vif = none ∧ e.vifAddress = none ∨
    ∃ vif text, e.vif = some vif ∧ e.vifAddress = some text ∧ LinkAddress.Written text
  addresses : e.addresses.Nodup
  rate : (e.rate == .ofFloat (-1)) = true ∨ 0 ≤ e.rate.toFloat
  queue : ∀ depth, e.queue = some depth → CanonicalDepth depth ∧ depth ≠ defaultQueue

/-- A group entry in saved form over the interfaces of a configuration. Members that are interfaces
come first, in the order of the interfaces, and wildcards follow in the order of their stems. -/
structure GroupEntry.Saved (interfaces : List String) (g : GroupEntry) : Prop where
  mode : ∃ mode : Mode, g.mode = mode.token
  relay : ∃ relay : RelayType, g.relay = relay.token
  push : g.source ≠ none → g.mode = Mode.push.token
  source : ∀ s, g.source = some s → s ∈ interfaces ∨ s.toList.getLast? = some wildcardMark
  apart : ∀ s, g.source = some s → s ∉ g.members
  members : ∃ (named stems : List String), g.members = named ++ stems.map wildcardName ∧
    named.Sublist interfaces ∧ stems.Pairwise StemBefore

end Config

/-- A configuration in saved form. -/
structure Configuration.Saved (c : Configuration) : Prop where
  defaultQueue : Config.CanonicalDepth c.engine.defaultQueue
  interfaces : ∀ e ∈ c.interfaces, e.Saved c.engine.defaultQueue
  interfaceNames : (c.interfaces.map (·.name)).Nodup
  groups : ∀ g ∈ c.groups, g.Saved (c.interfaces.map (·.name))
  groupNames : (c.groups.map (·.name)).Nodup

/-! ## Values read back -/

theorem QueueDepth.toConfig_ofConfig {depth : Int} (h : Config.CanonicalDepth depth) :
    (ofConfig depth).toConfig = depth := by
  unfold ofConfig
  rcases h with rfl | rfl | h
  · rfl
  · rfl
  · rw [if_neg (by omega), if_neg (by omega)]
    exact Int.toNat_of_nonneg (by omega)

theorem QueueDepth.ofConfig_inj {a b : Int} (ha : Config.CanonicalDepth a)
    (hb : Config.CanonicalDepth b) (h : ofConfig a = ofConfig b) : a = b := by
  rw [← toConfig_ofConfig ha, ← toConfig_ofConfig hb, h]

/-- A rate that says what it means is kept, up to the sign of zero. -/
theorem RateLimit.toBytesPerSecond_ofBytesPerSecond {rate : Float}
    (h : (rate == -1) = true ∨ 0 ≤ rate) : ((ofBytesPerSecond rate).toBytesPerSecond == rate) = true := by
  have hnan : rate ≠ .nan := by
    rcases h with h | h
    · exact (Float.beq_iff_ne_nan_and_eq.1 h).1
    · exact Decimal.ne_nan_of_le h
  have hnumber : rate.isNaN = false := by
    rw [Float.isNaN_eq_decide_eq_nan]
    exact decide_eq_false hnan
  unfold ofBytesPerSecond
  split
  · rename_i hneg
    rw [hnumber, Bool.or_false] at hneg
    rcases h with h | h
    · exact BEq.symm h
    · exact absurd (of_decide_eq_true hneg) (Decimal.not_lt_of_le h)
  · split
    · rename_i hzero
      exact BEq.symm hzero
    · exact Float.beq_self_iff.2 hnan

theorem Mode.ofToken_token (mode : Mode) : ofToken mode.token = .ok mode := by
  have hlower : mode.token.toLower = mode.token := by cases mode <;> decide +kernel
  unfold ofToken
  rw [hlower]
  cases mode <;> rfl

theorem Mode.token_inj {a b : Mode} (h : a.token = b.token) : a = b := by
  have hb := ofToken_token b
  rw [← h, ofToken_token a] at hb
  exact Except.ok.inj hb

theorem RelayType.ofToken_token (relay : RelayType) : ofToken relay.token = .ok relay := by
  have hlower : relay.token.toLower = relay.token := by cases relay <;> decide +kernel
  unfold ofToken
  rw [hlower]
  cases relay <;> rfl

theorem wildcardStem?_eq_none {name : String} :
    wildcardStem? name = none ↔ name.toList.getLast? ≠ some wildcardMark := by
  unfold wildcardStem?
  dsimp only
  split <;> simp_all

theorem wildcardStem?_wildcardName (stem : String) : wildcardStem? (wildcardName stem) = some stem := by
  unfold wildcardStem? wildcardName
  simp [wildcardMark]

/-- A name with the mark at its end is the wildcard name of its stem. -/
theorem exists_wildcardName {name : String} (h : name.toList.getLast? = some wildcardMark) :
    ∃ stem, name = wildcardName stem := by
  refine ⟨String.ofList name.toList.dropLast, ?_⟩
  obtain ⟨xs, hxs⟩ := List.getLast?_eq_some_iff.1 h
  apply String.toList_injective
  simp [wildcardName, hxs]

theorem wildcardName_inj {a b : String} (h : wildcardName a = wildcardName b) : a = b := by
  have hb := wildcardStem?_wildcardName b
  rw [← h, wildcardStem?_wildcardName a] at hb
  exact Option.some.inj hb

namespace Config

theorem InterfaceEntry.deviceList_ne_nil (e : InterfaceEntry) : e.deviceList ≠ [] := by
  unfold deviceList
  split
  · exact List.cons_ne_nil _ _
  · rename_i h
    simpa using h

theorem InterfaceEntry.Saved.deviceFields {q : Int} {e : InterfaceEntry} (h : e.Saved q) :
    deviceFields e.name e.deviceList = (e.device, e.devices) := by
  have hone := h.devices
  have hname := h.device
  unfold InterfaceEntry.deviceList
  cases hd : e.devices with
  | nil =>
    cases hs : e.device with
    | none => simp [Config.deviceFields]
    | some d =>
      have hne : d ≠ e.name := fun he => hname (hs.trans (congrArg some he))
      simp [Config.deviceFields, hne]
  | cons d ds =>
    have hnone : e.device = none := h.oneOrMany.resolve_right (by simp [hd])
    cases ds with
    | nil => simp [hd] at hone
    | cons d' ds => simp [Config.deviceFields, hnone]

/-- The entry with its rate as it is read back. -/
def InterfaceEntry.reread (e : InterfaceEntry) : InterfaceEntry :=
  { e with rate := .ofFloat (RateLimit.ofBytesPerSecond e.rate.toFloat).toBytesPerSecond }

theorem toFloat_ofFloat (x : Float) : (Decimal.Binary64.ofFloat x).toFloat = x :=
  Float.ofBits_toBits x

theorem InterfaceEntry.Saved.reread_beq {q : Int} {e : InterfaceEntry} (h : e.Saved q) :
    (e.reread == e) = true := by
  have hrate : (e.reread.rate == e.rate) = true := by
    show ((Decimal.Binary64.ofFloat _).toFloat == e.rate.toFloat) = true
    rw [toFloat_ofFloat]
    refine RateLimit.toBytesPerSecond_ofBytesPerSecond (h.rate.imp_left fun hr => ?_)
    have hr : (e.rate.toFloat == (Decimal.Binary64.ofFloat (-1)).toFloat) = true := hr
    rwa [toFloat_ofFloat] at hr
  cases e
  show instBEqInterfaceEntry.beq _ _ = true
  simp only [InterfaceEntry.reread, instBEqInterfaceEntry.beq] at hrate ⊢
  simp [hrate]

end Config

/-- What is read back equals what was saved. -/
theorem Configuration.Saved.reread_beq {c : Configuration} (h : c.Saved) :
    ({ c with interfaces := c.interfaces.map (·.reread) } == c) = true := by
  have hinterfaces : ∀ es : List Config.InterfaceEntry, (∀ e ∈ es, e.Saved c.engine.defaultQueue) →
      (es.map (·.reread) == es) = true := by
    intro es hes
    induction es with
    | nil => rfl
    | cons e es ih =>
      rw [List.map_cons, List.cons_beq_cons, (hes e List.mem_cons_self).reread_beq,
        ih fun k hk => hes k (List.mem_cons_of_mem _ hk)]
      rfl
  have hlist := hinterfaces c.interfaces h.interfaces
  have hengine : (c.engine == c.engine) = true := by
    show Config.instBEqEngineSection.beq _ _ = true
    simp [Config.instBEqEngineSection.beq]
  have hgroups : ∀ gs : List Config.GroupEntry, (gs == gs) = true := by
    intro gs
    induction gs with
    | nil => rfl
    | cons g gs ih =>
      have hg : (g == g) = true := by
        show Config.instBEqGroupEntry.beq _ _ = true
        simp [Config.instBEqGroupEntry.beq]
      rw [List.cons_beq_cons, hg, ih]
      rfl
  show instBEqConfiguration.beq _ _ = true
  unfold instBEqConfiguration.beq
  dsimp only
  rw [hlist, hengine, hgroups]
  rfl

end MulticastRelay
