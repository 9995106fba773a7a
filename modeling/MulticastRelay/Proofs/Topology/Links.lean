import MulticastRelay.Node.Basic
import MulticastRelay.Proofs.Topology.Sound

/-! # Interfaces and the table of links

An interface of a link has the name and the index of the link. Every other interface has an index
that was made up, past those of all links.
-/
namespace MulticastRelay

/-- A table of links with distinct names and distinct indices that are not made up. -/
structure LinkNames (links : List Link) : Prop where
  names : (links.map Link.name).Nodup
  indices : (links.map Link.index).Nodup
  below : ∀ l ∈ links, l.index ≤ Node.syntheticBase

/-- The link is in the table, up or down. -/
def Listed (links : List Link) (l : Link) : Prop := ∃ k ∈ links, k.name = l.name ∧ k.index = l.index

namespace LinkNames

variable {links : List Link} {l k : Link}

theorem index_iff (h : LinkNames links) (hl : Listed links l) (hk : Listed links k) :
    l.index = k.index ↔ l.name = k.name := by
  obtain ⟨a, ha, han, hai⟩ := hl
  obtain ⟨b, hb, hbn, hbi⟩ := hk
  rw [← han, ← hai, ← hbn, ← hbi]
  constructor
  · intro hi
    rw [List.inj_on_of_nodup_map h.indices ha hb hi]
  · intro hn
    rw [List.inj_on_of_nodup_map h.names ha hb hn]

end LinkNames

namespace Topology

variable {links : List Link} {l : Link} {top : Nat} {t u : Topology} {name : String}
  {id : InterfaceId}

/-- Interfaces stand where the table of links puts them, and none past `top`. -/
structure Placed (links : List Link) (top : Nat) (t : Topology) : Prop where
  fits : ∀ l, Listed links l → t.Fits ⟨l.index⟩ l.name
  below : ∀ a x, t.nameOf? a = some x → a.index ≤ top

theorem Placed.of_naming (h : Placed links top t) (hn : ∀ a, u.nameOf? a = t.nameOf? a) :
    Placed links top u where
  fits l hl a x hx := h.fits l hl a x ((hn a).symm.trans hx)
  below a x hx := h.below a x ((hn a).symm.trans hx)

theorem Placed.addLink (h : Placed links top t) (ht : LinkNames links)
    (hb : Node.syntheticBase ≤ top)
    (hs : Sound t) (hl : Listed links l) : Placed links top (t.addInterface ⟨l.index⟩ l.name) := by
  have hn := fun a => nameOf?_addInterface (a := a) hs (h.fits l hl)
  constructor
  · intro k hk a x hx
    rw [hn a] at hx
    by_cases ha : a = ⟨l.index⟩
    · rw [if_pos ha] at hx
      cases hx
      rw [ha, InterfaceId.mk.injEq]
      exact ht.index_iff hl hk
    · rw [if_neg ha] at hx
      exact h.fits k hk a x hx
  · intro a x hx
    rw [hn a] at hx
    by_cases ha : a = ⟨l.index⟩
    · obtain ⟨k, hk, -, hi⟩ := hl
      have := ht.below k hk
      rw [ha, ← hi]
      exact Nat.le_trans this hb
    · rw [if_neg ha] at hx
      exact h.below a x hx

/-- A made-up index fits a name that neither a link nor an interface has. -/
theorem Placed.fits_synthetic (h : Placed links top t) (hn : ∀ a, t.nameOf? a ≠ some name) :
    t.Fits ⟨top + 1⟩ name := by
  intro a x hx
  constructor
  · rintro rfl
    exact absurd (h.below _ x hx) (Nat.not_succ_le_self top)
  · rintro rfl
    exact absurd hx (hn a)

theorem Placed.addSynthetic (h : Placed links top t) (ht : LinkNames links)
    (hb : Node.syntheticBase ≤ top)
    (hs : Sound t) (hn : ∀ a, t.nameOf? a ≠ some name) (hl : ∀ l ∈ links, l.name ≠ name) :
    Placed links (top + 1) (t.addInterface ⟨top + 1⟩ name) := by
  have hnames := fun a => nameOf?_addInterface (a := a) hs (h.fits_synthetic hn)
  constructor
  · intro k hk a x hx
    rw [hnames a] at hx
    by_cases ha : a = ⟨top + 1⟩
    · rw [if_pos ha] at hx
      cases hx
      obtain ⟨j, hj, hjn, hji⟩ := hk
      have hlow := ht.below j hj
      rw [ha, InterfaceId.mk.injEq]
      constructor
      · intro he
        omega
      · intro he
        exact absurd (hjn.trans he.symm) (hl j hj)
    · rw [if_neg ha] at hx
      exact h.fits k hk a x hx
  · intro a x hx
    rw [hnames a] at hx
    by_cases ha : a = ⟨top + 1⟩
    · subst ha
      exact Nat.le_refl _
    · rw [if_neg ha] at hx
      exact Nat.le_succ_of_le (h.below a x hx)

end Topology
end MulticastRelay
