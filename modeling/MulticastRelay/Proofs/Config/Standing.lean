import MulticastRelay.Proofs.Config.Binding
import MulticastRelay.Proofs.Node.Graph

/-! # Nodes and portraits

Adapters and devices never show in the portrait. What remains of a node is its topology, its table
of links, and the index made up last.
-/
namespace MulticastRelay

namespace Config

open MulticastRelay.Topology

/-- A node whose topology shows the portrait of some entries, over a table of links. -/
structure Standing (links : List Link) (es : List GroupEntry) (seed : GroupEntry → Set String)
    (B : Set Binding) (n : Node) : Prop where
  known : n.links.map (fun l => (l.name, l.index)) = links.map fun l => (l.name, l.index)
  made : Node.syntheticBase ≤ n.lastSynthetic
  depicts : Depicts links n.lastSynthetic es seed B n.topology

variable {links : List Link} {es : List GroupEntry} {seed : GroupEntry → Set String}
  {B : Set Binding} {n m : Node} {name x : String} {id : InterfaceId} {t u : Topology} {top : Nat}
  {l : Link} {e : GroupEntry}

theorem Depicts.recast (h : Depicts links top es seed B t) (hr : Recast t u)
    (hl : ∀ a b, u.Linked a b ↔ t.Linked a b) : Depicts links top es seed B u where
  settled := ⟨hr.sound h.settled.sound, h.settled.wired.of_extends hr.toExtends hl⟩
  picture := (hr.toExtends.picture_eq h.settled.sound).trans h.picture
  rules stem group role := by
    rw [hr.matchers]
    exact h.rules stem group role
  placed := h.placed.of_naming hr.naming

namespace Standing

theorem of_graph (hg : Node.SameGraph n m) (h : Standing links es seed B n) :
    Standing links es seed B m where
  known := by
    rw [hg.links]
    exact h.known
  made := by
    rw [hg.lastSynthetic]
    exact h.made
  depicts := by
    rw [hg.lastSynthetic, hg.topology]
    exact h.depicts

theorem listed (h : Standing links es seed B n) (hl : l ∈ n.links) : Listed links l := by
  have hm : (l.name, l.index) ∈ links.map fun l => (l.name, l.index) :=
    h.known ▸ List.mem_map_of_mem hl
  obtain ⟨k, hk, he⟩ := List.mem_map.1 hm
  obtain ⟨hn, hi⟩ := Prod.mk.inj he
  exact ⟨k, hk, hn, hi⟩

theorem listed_of_link? (h : Standing links es seed B n) (hl : n.link? name = some l) :
    Listed links l ∧ l.name = name := by
  obtain ⟨hm, hn⟩ := Keyed.get?_mem hl
  exact ⟨h.listed hm, hn⟩

theorem name_ne_of_link? (h : Standing links es seed B n) (hl : n.link? name = none) :
    ∀ l ∈ links, l.name ≠ name := by
  intro l hin he
  have hm : (l.name, l.index) ∈ n.links.map fun l => (l.name, l.index) :=
    h.known.symm ▸ List.mem_map_of_mem hin
  obtain ⟨k, hk, hke⟩ := List.mem_map.1 hm
  obtain ⟨hn, -⟩ := Prod.mk.inj hke
  exact Keyed.get?_eq_none_iff.1 hl (he ▸ hn ▸ List.mem_map_of_mem hk)

/-- Once the topology has the interface, its adapter does not matter. -/
theorem of_addInterface {k : Node} (h : Standing links es seed B n) (hf : n.topology.Fits id name)
    (ht : k.topology = n.topology.addInterface id name) (hk : k.links = n.links)
    (hb : Node.syntheticBase ≤ k.lastSynthetic)
    (hp : Placed links k.lastSynthetic (n.topology.addInterface id name)) :
    Standing links es seed B (k.ensureStation id name) ∧ (k.ensureStation id name).links = n.links ∧
      (k.ensureStation id name).topology.nameOf? id = some name := by
  have hg := Node.ensureStation_graph k id name
  have hd : Depicts links k.lastSynthetic es seed B k.topology := ht ▸ h.depicts.addInterface hf hp
  refine ⟨Standing.of_graph hg ⟨(congrArg _ hk).trans h.known, hb, hd⟩, hg.links.trans hk, ?_⟩
  rw [hg.topology, ht]
  exact nameOf?_addInterface_self h.depicts.settled.sound hf

/-- The interface of a name, found or made, keeps the portrait. -/
theorem addInterface (h : Standing links es seed B n) (hl : LinkNames links) (name : String) :
    Standing links es seed B (n.addInterface name).2 ∧
      (n.addInterface name).2.links = n.links ∧
      (n.addInterface name).2.topology.nameOf? (n.addInterface name).1 = some name := by
  have hs := h.depicts.settled.sound
  unfold Node.addInterface Node.indexFor
  dsimp only
  cases hi : n.topology.interfaceNamed? name with
  | some i =>
    obtain ⟨hi, hn⟩ := hs.interfaceNamed?_eq.1 hi
    have hx : n.topology.nameOf? i.id = some name := by
      unfold nameOf?
      rw [hi, ← hn]
      rfl
    have hf : n.topology.Fits i.id name := by
      intro a y hy
      constructor
      · rintro rfl
        rw [hx] at hy
        exact (Option.some.inj hy).symm
      · rintro rfl
        exact hs.nameOf?_inj hy hx
    have hp : Placed links n.lastSynthetic (n.topology.addInterface i.id name) := by
      refine h.depicts.placed.of_naming fun a => ?_
      rw [nameOf?_addInterface hs hf]
      by_cases ha : a = i.id
      · rw [if_pos ha, ha, hx]
      · rw [if_neg ha]
    exact h.of_addInterface hf rfl rfl h.made hp
  | none =>
    have hfree : ∀ a, n.topology.nameOf? a ≠ some name := by
      intro a ha
      obtain ⟨i, hia, hin⟩ := Option.map_eq_some_iff.1 ha
      have hid := (Keyed.get?_mem hia).2
      rw [hs.interfaceNamed?_eq.2 ⟨hid.symm ▸ hia, hin⟩] at hi
      cases hi
    cases hk : n.link? name with
    | some l =>
      obtain ⟨hlist, rfl⟩ := h.listed_of_link? hk
      have hf := h.depicts.placed.fits l hlist
      have hp := h.depicts.placed.addLink hl h.made hs hlist
      exact h.of_addInterface hf rfl rfl h.made hp
    | none =>
      have hf := h.depicts.placed.fits_synthetic hfree
      have hp := h.depicts.placed.addSynthetic hl h.made hs hfree (h.name_ne_of_link? hk)
      exact h.of_addInterface hf rfl rfl (Nat.le_succ_of_le h.made) hp

theorem modifyInterface (h : Standing links es seed B n) {f : Interface → Interface}
    (hf : ∀ i, (f i).id = i.id ∧ (f i).name = i.name ∧ (f i).associates = i.associates)
    (hm : Node.SameGraph { n with topology := n.topology.modifyInterface id f } m) :
    Standing links es seed B m := by
  have hid : ∀ i : Interface, i.id = id → (f i).id = id := fun i hi => (hf i).1.trans hi
  have hr : Recast n.topology (n.topology.modifyInterface id f) :=
    modifyInterface_recast (fun i _ => (hf i).2.1) hid
  have hl : ∀ a b, (n.topology.modifyInterface id f).Linked a b ↔ n.topology.Linked a b := by
    intro a b
    rw [linked_modifyInterface hid]
    by_cases ha : a = id
    · rw [if_pos ha, ha]
      simp [Linked, Interface.targets, (hf _).2.2]
    · rw [if_neg ha]
  exact Standing.of_graph hm ⟨h.known, h.made, h.depicts.recast hr hl⟩

theorem normalize_eq (h : Standing links es seed B n) (hk : Listed links l) :
    n.normalize l = l := by
  unfold Node.normalize
  cases hi : n.topology.interfaceNamed? l.name with
  | none => rfl
  | some i =>
    obtain ⟨hi, hn⟩ := h.depicts.settled.sound.interfaceNamed?_eq.1 hi
    have hx : n.topology.nameOf? i.id = some i.name := by
      unfold nameOf?
      rw [hi]
      rfl
    have hid : i.id = ⟨l.index⟩ := (h.depicts.placed.fits l hk i.id i.name hx).2 hn
    simp [hid]

theorem putLink_known (h : Standing links es seed B n) (hl : LinkNames links)
    (hk : Listed links l) :
    (Node.putLink n.links l).map (fun l => (l.name, l.index)) =
      links.map fun l => (l.name, l.index) := by
  have hin : (Keyed.get? Link.name l.name n.links).isSome := by
    cases hg : Keyed.get? Link.name l.name n.links with
    | some k => rfl
    | none =>
      obtain ⟨k, hm, hn, -⟩ := hk
      exact absurd hn (h.name_ne_of_link? hg k hm)
  unfold Node.putLink Keyed.put
  rw [if_pos hin, ← h.known]
  unfold Keyed.modify
  rw [List.map_map]
  refine List.map_congr_left fun k hm => ?_
  by_cases he : k.name = l.name
  · have hi := (hl.index_iff (h.listed hm) hk).2 he
    simp [he, hi]
  · simp [he]

/-- A link that comes up is bound by every entry that asks for it. -/
theorem linkUp (h : Standing links es seed B n) (hl : LinkNames links) (ha : Apart es)
    (hs : ∀ e ∈ es, e.source.isSome → Seeds seed e) (hk : Listed links l) (hu : l.up = true) :
    Standing links es seed (B ∪ bound es [l]) (n.linkUp l).2 := by
  have hput : Standing links es seed B { n with links := Node.putLink n.links l } :=
    ⟨h.putLink_known hl hk, h.made, h.depicts⟩
  have hd := h.depicts.linkUp hl h.made ha hs hk hu
  unfold Node.linkUp
  dsimp only
  rw [hput.normalize_eq hk]
  refine Standing.of_graph ((Node.openDevices_graph _ _).trans (Node.syncCapture_graph _)) ?_
  exact ⟨hput.known, h.made, hd⟩

end Standing
end Config
end MulticastRelay
