import MulticastRelay.Proofs.Config.GroupsRestored

/-! # Saving undoes loading

A configuration in saved form is applied to a new node entry by entry, interfaces first. Each entry adds
itself to what a capture shows, so that the capture of the whole gives the configuration back.
-/
namespace MulticastRelay

namespace Config

open Applying

variable {c : Configuration} {s : NodeSettings} {n : Node} {now : Instant}

theorem new_filled (s : NodeSettings) : Filled s [] (Node.new s) where
  aligned := Node.new_aligned s
  settings := rfl
  links := rfl
  willing := rfl
  ascending := List.Pairwise.nil
  bounded _ h := absurd h List.not_mem_nil
  entries := rfl
  groups := rfl
  matchers := rfl

theorem reread_names (es : List InterfaceEntry) :
    (es.map (·.reread)).map (·.name) = es.map (·.name) := by
  rw [List.map_map]
  rfl

theorem applyInterfaces_reaches (hc : c.Saved)
    (hnow : now < Instant.secondsBound * Duration.perSecond) :
    Reaches (Filled c.engine.settings []) (c.interfaces.forM (applyInterface · now)) fun _ =>
      Filled c.engine.settings (c.interfaces.map (·.reread)) := by
  refine reaches_forM (I := fun done => Filled c.engine.settings (done.map InterfaceEntry.reread))
    fun done e rest hsplit => ?_
  have he : e ∈ c.interfaces := hsplit ▸ List.mem_append_right _ List.mem_cons_self
  have hnames := hc.interfaceNames
  rw [hsplit, List.map_append] at hnames
  have hnew : e.name ∉ (done.map (·.reread)).map (·.name) := by
    rw [reread_names]
    exact fun hin => List.disjoint_of_nodup_append hnames hin List.mem_cons_self
  have hadd := applyInterface_reaches (s := c.engine.settings) rfl hc.defaultQueue
    (hc.interfaces e he) hnew hnow
  rwa [List.map_append]

theorem applyGroups_reaches (hc : c.Saved) :
    Reaches (Grouped s (c.interfaces.map (·.reread)) []) (c.groups.forM applyGroup) fun _ =>
      Grouped s (c.interfaces.map (·.reread)) c.groups := by
  have hplain : ∀ w ∈ (c.interfaces.map (·.reread)).map (·.name), wildcardStem? w = none := by
    rw [reread_names]
    intro w hw
    obtain ⟨e, he, rfl⟩ := List.mem_map.1 hw
    exact wildcardStem?_eq_none.2 (hc.interfaces e he).name
  refine reaches_forM fun done g rest hsplit => ?_
  have hg : g ∈ c.groups := hsplit ▸ List.mem_append_right _ List.mem_cons_self
  have hnames := hc.groupNames
  rw [hsplit, List.map_append] at hnames
  refine applyGroup_reaches hplain ?_ fun hin =>
    List.disjoint_of_nodup_append hnames hin List.mem_cons_self
  rw [reread_names]
  exact hc.groups g hg

/-- What is captured is what was applied, with rates as they are read back. -/
theorem Grouped.capture_eq (hc : c.Saved)
    (h : Grouped c.engine.settings (c.interfaces.map (·.reread)) c.groups n) :
    Configuration.capture n = { c with interfaces := c.interfaces.map (·.reread) } := by
  have hidle : c.engine.settings.idleTick / Duration.microsecond = c.engine.idleTick :=
    Nat.mul_div_cancel _ (by decide)
  have hqueue : c.engine.settings.defaultQueue.toConfig = c.engine.defaultQueue :=
    QueueDepth.toConfig_ofConfig hc.defaultQueue
  have hgroups : (Configuration.capture n).groups = c.groups :=
    (capture_groups h.aligned.intact.toCatalogued).trans h.lists.entries
  unfold Configuration.capture
  rw [h.entries, h.settings, hidle, hqueue]
  exact congrArg (Configuration.mk c.engine _) hgroups

end Config

/-- A configuration in saved form is applied to a new node without fault, and capturing the node gives
the configuration back. Rates are compared by value, which does not tell the two zeros apart. -/
theorem Configuration.capture_apply (c : Configuration) (now : Instant) (hc : c.Saved)
    (hnow : now < Instant.secondsBound * Duration.perSecond) :
    ∃ n, c.apply (Node.new c.engine.settings) now = .ok (.ok (), n) ∧
      (Configuration.capture n == c) = true := by
  have hall : Config.Applying.Reaches (Config.Filled c.engine.settings []) (Config.applyAll c now)
      fun _ => Config.Grouped c.engine.settings (c.interfaces.map (·.reread)) c.groups := by
    refine Config.Applying.reaches_bind (Config.applyInterfaces_reaches hc hnow) fun _ n hn => ?_
    exact Config.applyGroups_reaches hc n ⟨hn.toShows, .empty hn.groups hn.matchers⟩
  obtain ⟨_, n, hrun, hn⟩ := hall _ (Config.new_filled c.engine.settings)
  refine ⟨n, hrun, ?_⟩
  rw [hn.capture_eq hc]
  exact hc.reread_beq

/-- Interfaces of every binding, a source by name and one by wildcard, and wildcard members. -/
def Config.crossroads : Configuration where
  engine := { defaultQueue := -1 }
  interfaces :=
    [{ name := "wlan0", queue := some 0 },
     { name := "wan0", devices := ["eth1", "eth2"], policy := .roundRobin, rate := .ofFloat 125000 },
     { name := "tun0", device := some "usb0", vif := some "relay0",
       vifAddress := some "02:00:00:00:00:0a", addresses := [.v4 10 0 0 1] }]
  groups :=
    [{ name := "manet", mode := Mode.relay.token, relay := RelayType.essentialDominatingSet.token,
       members := ["wlan0", "tun0", "ap#", "mesh#"] },
     { name := "feed", mode := Mode.push.token, source := some "wan0", members := ["wlan0", "ppp#"] },
     { name := "dial", mode := Mode.push.token, source := some "ppp#", members := ["wan0", "ap#"],
       tunnel := true }]

theorem Config.crossroads_saved : Config.crossroads.Saved where
  defaultQueue := .inr (.inl rfl)
  interfaceNames := by decide +kernel
  groupNames := by decide +kernel
  interfaces := by
    have haddress : LinkAddress.Written "02:00:00:00:00:0a" :=
      ⟨[('0', '2'), ('0', '0'), ('0', '0'), ('0', '0'), ('0', '0'), ('0', 'a')], by decide +kernel⟩
    refine List.forall_mem_cons.2 ⟨?wlan0,
      List.forall_mem_cons.2 ⟨?wan0, List.forall_mem_singleton.2 ?tun0⟩⟩
    case wlan0 =>
      exact ⟨by decide +kernel, by decide, by decide, .inl rfl, .inl ⟨rfl, rfl⟩, List.nodup_nil,
        .inl (by decide +kernel), by rintro _ ⟨⟩; exact ⟨.inl rfl, by decide⟩⟩
    case wan0 =>
      exact ⟨by decide +kernel, by decide, by decide, .inl rfl, .inl ⟨rfl, rfl⟩, List.nodup_nil,
        .inr (by decide +kernel), by rintro _ ⟨⟩⟩
    case tun0 =>
      exact ⟨by decide +kernel, by decide, by decide, .inr rfl, .inr ⟨_, _, rfl, rfl, haddress⟩,
        List.nodup_singleton _, .inl (by decide +kernel), by rintro _ ⟨⟩⟩
  groups := by
    refine List.forall_mem_cons.2 ⟨?manet,
      List.forall_mem_cons.2 ⟨?feed, List.forall_mem_singleton.2 ?dial⟩⟩
    case manet =>
      exact ⟨⟨.relay, rfl⟩, ⟨.essentialDominatingSet, rfl⟩, fun h => absurd rfl h, by rintro _ ⟨⟩,
        by rintro _ ⟨⟩, ["wlan0", "tun0"], ["ap", "mesh"], by decide +kernel, by decide +kernel,
        List.pairwise_pair.2 (.inl (by decide +kernel))⟩
    case feed =>
      exact ⟨⟨.push, rfl⟩, ⟨.classicalFlooding, rfl⟩, fun _ => rfl,
        by rintro _ ⟨⟩; exact .inl (by decide +kernel), by rintro _ ⟨⟩; decide +kernel,
        ["wlan0"], ["ppp"], by decide +kernel, by decide +kernel, List.pairwise_singleton _ _⟩
    case dial =>
      exact ⟨⟨.push, rfl⟩, ⟨.classicalFlooding, rfl⟩, fun _ => rfl,
        by rintro _ ⟨⟩; exact .inr (by decide +kernel), by rintro _ ⟨⟩; decide +kernel,
        ["wan0"], ["ap"], by decide +kernel, by decide +kernel, List.pairwise_singleton _ _⟩

theorem Config.crossroads_capture_apply : Config.crossroads.Saved ∧
    ∃ n, Config.crossroads.apply (Node.new Config.crossroads.engine.settings) 7 = .ok (.ok (), n) ∧
      (Configuration.capture n == Config.crossroads) = true :=
  ⟨Config.crossroads_saved, Configuration.capture_apply _ 7 Config.crossroads_saved (by decide)⟩

end MulticastRelay
