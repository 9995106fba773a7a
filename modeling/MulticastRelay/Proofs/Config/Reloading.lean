import MulticastRelay.Proofs.Config.GroupsLoaded
import MulticastRelay.Proofs.Config.Tunnels

/-! # Captures loaded again

What a capture of a node writes can be read back field by field. Loaded into a new node over the same
links it fails in one place only: a group that was there under the name of an instance keeps its mode
when a link takes it over, and a source with another mode than push is written but not accepted.
-/
namespace MulticastRelay

open Config

namespace Configuration

open Applying

variable {links : List Link} {c : Configuration} {n m : Node} {now : Instant}

/-- A configuration whose entries can be loaded applies to a new node. -/
theorem applies (hl : LinkNames links) (hi : ∀ e ∈ c.interfaces, e.Loadable)
    (hn : (c.interfaces.map (·.name)).Nodup) (hg : ∀ e ∈ c.groups, e.Loadable)
    (hnow : now < Instant.secondsBound * Duration.perSecond) (settings : NodeSettings) :
    ∃ m, c.apply (Node.start settings links) now = .ok (.ok (), m) := by
  have hall : Reaches (Loading links []) (applyAll c now) fun _ => Ready := by
    refine reaches_bind (applyInterfaces_loads hl hi hn hnow) fun _ => ?_
    intro k hk
    exact applyGroups_loads hg k ⟨hk.aligned, hk.willing⟩
  obtain ⟨_, m, hm, _⟩ := hall _ (start_loading settings hl)
  exact ⟨m, hm⟩

/-- A configuration that was applied gives a source to push groups alone. -/
theorem push_of_apply (h : c.apply n now = .ok (.ok (), m)) :
    ∀ e ∈ c.groups, e.source.isSome → e.modeRead = .push := by
  have hall : Leads (fun _ => True) (applyAll c now) fun _ _ =>
      ∀ e ∈ c.groups, e.source.isSome → e.modeRead = .push :=
    leads_bind (Q := fun _ _ => True) (fun _ _ _ _ _ => trivial) fun _ => applyGroups_push
  exact hall n () m trivial h

end Configuration

namespace Config

open MulticastRelay.Topology

variable {n : Node} {i : Interface} {t : Topology} {g : Group} {ms : List Matcher} {now : Instant}

/-! ## Entries of a capture -/

/-- A software interface is captured with its address. -/
theorem captureInterface_loadable (ha : n.Aligned []) (ht : n.Tunnelled)
    (hi : i ∈ n.topology.interfaces) : (captureInterface n i).Loadable := by
  have hfound : n.topology.interface? i.id = some i := ha.intact.interface?_eq.2 ⟨hi, rfl⟩
  obtain ⟨a, hs⟩ := exists_station ha hfound
  have hboth := ht i.id
  have hstation : n.stations.get? i.id = some a := hs
  unfold Topology.vif? Stations.vif? at hboth
  rw [hfound, hstation] at hboth
  intro vif hv
  rw [captureInterface_eq hs] at hv ⊢
  have hbound : a.vif.map VifBinding.name = some vif := hboth.symm.trans hv
  obtain ⟨b, hb, -⟩ := Option.map_eq_some_iff.1 hbound
  have haddress : a.vif.map (·.address.render) = some b.address.render := by
    rw [hb]
    rfl
  exact ⟨b.address.render, b.address, haddress, LinkAddress.parse?_render b.address⟩

/-- A wildcard is captured as the source of push groups alone. -/
theorem push_of_wildcardSource? (h : (wildcardSource? g ms).isSome) : g.mode = .push := by
  unfold wildcardSource? at h
  rw [Option.isSome_map, List.getLast?_isSome] at h
  obtain ⟨m, hm⟩ := List.exists_mem_of_ne_nil _ h
  exact (of_decide_eq_true (List.mem_filter.1 hm).2).2

/-- A group is captured with a source if it has one. -/
theorem captureGroup_source (h : Intact t) (hg : g ∈ t.groups) (hs : g.source ≠ none) :
    (captureGroup t g).source.isSome := by
  obtain ⟨x, hx⟩ := Option.ne_none_iff_exists'.1 hs
  have hp := h.peopled g hg
  obtain ⟨i, hi⟩ := has_iff.1 (hp.present x (hp.sourced x hx))
  unfold captureGroup
  dsimp only
  cases wildcardSource? g (t.matchers.toList.filter (·.group = g.name)) with
  | some w => rfl
  | none =>
    rw [hx]
    change (Option.map Interface.name (t.interface? x)).isSome = true
    rw [hi]
    rfl

theorem captureGroup_modeRead (t : Topology) (g : Group) : (captureGroup t g).modeRead = g.mode :=
  modeRead_eq (Mode.ofToken_token g.mode)

theorem captureGroup_loadable (h : g.source ≠ none → g.mode = .push) :
    (captureGroup t g).Loadable where
  mode := ⟨g.mode, Mode.ofToken_token g.mode⟩
  relay := ⟨g.relayType, RelayType.ofToken_token g.relayType⟩
  source hs := by
    rw [captureGroup_modeRead]
    unfold captureGroup at hs
    dsimp only at hs
    cases hw : wildcardSource? g (t.matchers.toList.filter (·.group = g.name)) with
    | some w => exact push_of_wildcardSource? (by rw [hw]; rfl)
    | none =>
      refine h fun hnone => ?_
      rw [hw, hnone] at hs
      cases hs

theorem mem_capture_groups (h : Topology.Catalogued n.topology) {e : GroupEntry} :
    e ∈ (Configuration.capture n).groups ↔
      ∃ g ∈ n.topology.groups, g.derivedFrom = none ∧ captureGroup n.topology g = e := by
  simp [Configuration.capture, h.mem_groupsByName, and_assoc]

/-- The capture of a reachable node is accepted by a new node over the same links exactly when no
group but a push group has a source; groups made from templates are not captured. -/
theorem capture_reloads_iff (h : Node.Reachable n) (hl : LinkNames n.links)
    (hnow : now < Instant.secondsBound * Duration.perSecond) :
    (∃ m, (Configuration.capture n).apply
        (Node.start (Configuration.capture n).engine.settings n.links) now = .ok (.ok (), m)) ↔
      ∀ g ∈ n.topology.groups, g.derivedFrom = none → g.source ≠ none → g.mode = .push := by
  have ha := Node.reachable_aligned h
  have hmem := fun e => mem_capture_groups (e := e) ha.intact.toCatalogued
  constructor
  · rintro ⟨m, hm⟩ g hg hd hs
    have hpush := Configuration.push_of_apply hm _ ((hmem _).2 ⟨g, hg, hd, rfl⟩)
      (captureGroup_source ha.intact hg hs)
    rwa [captureGroup_modeRead] at hpush
  · intro hpush
    refine Configuration.applies hl (fun e he => ?_) ?_ (fun e he => ?_) hnow _
    · obtain ⟨i, hi, rfl⟩ := List.mem_map.1 he
      exact captureInterface_loadable ha (Node.reachable_tunnelled h) hi
    · have hnames : (Configuration.capture n).interfaces.map (·.name) =
          n.topology.interfaces.map Interface.name := by
        unfold Configuration.capture
        rw [List.map_map]
        exact List.map_congr_left fun i _ => captureInterface_name n i
      rw [hnames]
      exact (Node.reachable_inStep h).names
    · obtain ⟨g, hg, hd, rfl⟩ := (hmem e).1 he
      exact captureGroup_loadable (hpush g hg hd)

/-- A mesh has the name of an instance when the link of that instance comes up. -/
def crossedNode : Node :=
  let n : Node := .new { poolSize := 1, frameSize := 1 }
  let n := (n.addGroup "ppp" .push .classicalFlooding).2
  let n := (n.addMember "ppp" "ppp#" .source).2
  let n := (n.addGroup "ppp:ppp0" .merge .classicalFlooding).2
  (n.linkUp ⟨"ppp0", 10, true⟩).2

theorem crossedNode_reachable : Node.Reachable crossedNode := by
  have fresh : Node.Reachable (.new { poolSize := 1, frameSize := 1 }) := .new _
  have grouped := fresh.next (.addGroup "ppp" .push .classicalFlooding) rfl
  have waiting := grouped.next (.addMember "ppp" "ppp#" .source) rfl
  have named := waiting.next (.addGroup "ppp:ppp0" .merge .classicalFlooding) rfl
  exact named.next (.linkUp ⟨"ppp0", 10, true⟩) rfl

/-- The mesh is given a source, and the capture is not accepted any more. -/
theorem crossedNode_bars_reload : Node.Reachable crossedNode ∧ LinkNames crossedNode.links ∧
    ¬∃ m, (Configuration.capture crossedNode).apply
      (Node.start (Configuration.capture crossedNode).engine.settings crossedNode.links) 0 =
        .ok (.ok (), m) := by
  have hl : LinkNames crossedNode.links :=
    ⟨by decide +kernel, by decide +kernel, by decide +kernel⟩
  refine ⟨crossedNode_reachable, hl, fun hm => ?_⟩
  have hpush := (capture_reloads_iff crossedNode_reachable hl (by decide)).1 hm
  have hcrossed : ∃ g ∈ crossedNode.topology.groups,
      g.derivedFrom = none ∧ g.source ≠ none ∧ g.mode ≠ .push := by decide +kernel
  obtain ⟨g, hg, hd, hs, hne⟩ := hcrossed
  exact hne (hpush g hg hd hs)

end Config
end MulticastRelay
