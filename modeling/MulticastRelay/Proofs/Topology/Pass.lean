import MulticastRelay.Proofs.Topology.Intact
import Mathlib.Data.Set.Card

/-! # What an association pass does

For every pair of interfaces, the owner of the edge between them after a pass is determined by the
owner before and by what the group calls for. The pass is additive: an edge that another group owns
is counted and left to it. A second pass finds everything done.
-/
namespace MulticastRelay

/-- By source, and by target where the source is the same. -/
def precedes (e d : Edge) : Prop := e.1.index < d.1.index ∨ e.1 = d.1 ∧ e.2.index < d.2.index

theorem not_precedes_self (e : Edge) : ¬precedes e e := by
  unfold precedes
  omega

namespace Group

variable {g : Group} {e : Edge}

/-- The pairs that a group calls for: its source with every other member, and in a mesh every two
members. -/
def wanted (g : Group) : Set Edge := {e | g.Sends e.1 ∧ e.2 ∈ g.members ∧ e.2 ≠ e.1}

theorem mem_edges_iff : e ∈ g.edges ↔ e ∈ g.wanted := mem_edges

theorem edges_ordered (h : g.members.Pairwise fun a b => a.before b = true) :
    g.edges.Pairwise precedes := by
  have hlt : g.members.Pairwise fun a b => a.index < b.index := h.imp fun hab => of_decide_eq_true hab
  have hrow : ∀ (s : InterfaceId) (p : InterfaceId → Bool),
      ((g.members.filter p).map (s, ·)).Pairwise precedes := fun s p =>
    List.pairwise_map.2 ((hlt.filter p).imp fun hab => .inr ⟨rfl, hab⟩)
  have hmesh : (g.members.flatMap fun s => (g.members.filter (· ≠ s)).map (s, ·)).Pairwise
      precedes := by
    refine List.pairwise_flatMap.2 ⟨fun s _ => hrow s _, hlt.imp fun hab e he d hd => ?_⟩
    obtain ⟨x, -, rfl⟩ := List.mem_map.1 he
    obtain ⟨y, -, rfl⟩ := List.mem_map.1 hd
    exact .inl hab
  unfold edges
  cases g.mode with
  | push =>
    dsimp only
    split
    · exact .nil
    · split
      · exact hrow _ _
      · exact .nil
  | merge => exact hmesh
  | relay => exact hmesh

theorem edges_nodup (h : g.members.Pairwise fun a b => a.before b = true) : g.edges.Nodup := by
  refine (edges_ordered h).imp ?_
  rintro a _ hab rfl
  exact not_precedes_self a hab

theorem wanted_members (hs : ∀ s, g.source = some s → s ∈ g.members) (he : e ∈ g.wanted) :
    e.1 ∈ g.members ∧ e.2 ∈ g.members := by
  refine ⟨?_, he.2.1⟩
  have hsend := he.1
  unfold Sends at hsend
  split at hsend
  · exact hs _ hsend.2
  · exact hsend

end Group

namespace Interface

variable {i : Interface} {owner : GroupId} {b c : InterfaceId}

/-- The owner of the edge to a target. -/
def owner? (i : Interface) (target : InterfaceId) : Option GroupId :=
  (i.associate? target).map (·.owner)

theorem owner?_connect :
    (i.connect owner b).2.owner? c =
      if (i.owner? c).isNone ∧ c = b then some owner else i.owner? c := by
  unfold connect owner?
  cases hb : i.associate? b with
  | some a =>
    dsimp only
    split
    · rename_i h
      rw [h.2, hb] at h
      simp at h
    · rfl
  | none =>
    have hfind : ({ i with associates := i.associates ++ [⟨owner, b⟩] } : Interface).associate? c =
        (i.associate? c).or (if b = c then some ⟨owner, b⟩ else none) := by
      simp [associate?, List.find?_append, List.find?_cons]
      split <;> simp_all
    dsimp only
    rw [hfind]
    cases i.associate? c with
    | some a => simp
    | none =>
      by_cases hc : c = b
      · simp [hc]
      · simp [hc, Ne.symm hc]

theorem connect_status :
    (i.connect owner b).1 = match i.owner? b with
      | none => .created
      | some o => if o = owner then .existing else .conflict o := by
  unfold connect owner?
  cases i.associate? b <;> rfl

/-- An interface without its edges and its capture state. -/
def bare (i : Interface) : Interface := { i with associates := [], captureActive := false }

theorem bare_connect : (i.connect owner b).2.bare = i.bare := by
  unfold connect
  cases i.associate? b <;> rfl

theorem connect_of_owner (h : i.owner? b ≠ none) : (i.connect owner b).2 = i := by
  unfold connect
  cases hb : i.associate? b with
  | some a => rfl
  | none => exact absurd (by rw [owner?, hb]; rfl) h

end Interface

/-- How a pair is met once a pass has met it. -/
def EdgeStatus.again : EdgeStatus → EdgeStatus
  | .created => .existing
  | s => s

namespace AssociationTally

/-- The conflict that a pair is part of. -/
def contest (s : Edge → EdgeStatus) (e : Edge) : Option (Edge × GroupId) :=
  match s e with
  | .conflict owner => some (e, owner)
  | _ => none

/-- The tally after each pair was met in its way. -/
def noteAll (a : AssociationTally) (s : Edge → EdgeStatus) (edges : List Edge) : AssociationTally :=
  edges.foldl (fun a e => a.note e (s e)) a

theorem noteAll_eq (s : Edge → EdgeStatus) (edges : List Edge) (a : AssociationTally) :
    a.noteAll s edges =
      { report :=
          { created := a.report.created + edges.countP (s · = .created)
            existing := a.report.existing + edges.countP (s · = .existing) }
        firstConflict := a.firstConflict <|> edges.findSome? (contest s)
        conflicts := a.conflicts + edges.countP fun e => (contest s e).isSome } := by
  induction edges generalizing a with
  | nil => simp [noteAll]
  | cons e edges ih =>
    have hcons : a.noteAll s (e :: edges) = (a.note e (s e)).noteAll s edges := rfl
    rw [hcons, ih]
    unfold contest note
    cases hs : s e with
    | created => simp [hs]; omega
    | existing => simp [hs]; omega
    | conflict owner => cases a.firstConflict <;> simp [hs] <;> omega

theorem noteAll_congr {s r : Edge → EdgeStatus} {edges : List Edge} (h : ∀ e ∈ edges, s e = r e)
    (a : AssociationTally) : a.noteAll s edges = a.noteAll r edges :=
  List.foldl_ext _ _ _ fun a e he => by rw [h e he]

theorem countP_again (s : Edge → EdgeStatus) (edges : List Edge) :
    edges.countP (fun e => (s e).again = .created) = 0 ∧
      edges.countP (fun e => (s e).again = .existing) =
        edges.countP (s · = .created) + edges.countP (s · = .existing) := by
  induction edges with
  | nil => exact ⟨rfl, rfl⟩
  | cons e edges ih =>
    obtain ⟨hc, he⟩ := ih
    simp only [List.countP_cons, hc, he]
    cases hs : s e <;> simp [EdgeStatus.again] <;> omega

/-- Met again, the pairs made before are there already, and the conflicts are the same. -/
theorem outcome_again (s : Edge → EdgeStatus) (edges : List Edge) :
    (noteAll {} (fun e => (s e).again) edges).outcome =
      (noteAll {} s edges).outcome.map fun r =>
        { created := 0, existing := r.created + r.existing } := by
  have hcontest : contest (fun e => (s e).again) = contest s := by
    funext e
    unfold contest
    cases hs : s e <;> simp [hs, EdgeStatus.again]
  obtain ⟨hc, he⟩ := countP_again s edges
  rw [noteAll_eq, noteAll_eq, hcontest, hc, he]
  unfold outcome
  cases edges.findSome? (contest s) <;> simp [Except.map]

end AssociationTally

namespace Topology

variable {t u : Topology} {id x y : InterfaceId} {gid owner : GroupId} {g : Group} {e : Edge}
  {i j : Interface} {tally : AssociationTally}

/-- The owner of the edge from one interface to another. -/
def owner? (t : Topology) (x y : InterfaceId) : Option GroupId :=
  (t.interface? x).bind (·.owner? y)

/-- How a pass of a group meets a pair. -/
def edgeStatus (t : Topology) (gid : GroupId) (e : Edge) : EdgeStatus :=
  match t.owner? e.1 e.2 with
  | none => .created
  | some o => if o = gid then .existing else .conflict o

/-! ## One edge -/

theorem Intact.modifyInterface_self (h : Intact t) {f : Interface → Interface}
    (hf : ∀ i, t.interface? id = some i → f i = i) : t.modifyInterface id f = t := by
  unfold Topology.modifyInterface
  rw [(Keyed.modify_eq_self_iff h.ids).2 hf]

theorem connect_eq (owner : GroupId) (tally : AssociationTally) (hx : t.Has e.1) (hy : t.Has e.2) :
    ∃ i, t.interface? e.1 = some i ∧ t.connect owner e tally =
      (t.modifyInterface e.1 fun _ => (i.connect owner e.2).2,
        tally.note e (t.edgeStatus owner e)) := by
  obtain ⟨i, hi⟩ := has_iff.1 hx
  obtain ⟨j, hj⟩ := has_iff.1 hy
  refine ⟨i, hi, ?_⟩
  have hs : (i.connect owner e.2).1 = t.edgeStatus owner e := by
    rw [Interface.connect_status, edgeStatus, owner?, hi]
    rfl
  unfold connect
  rw [hi, hj]
  exact Prod.ext rfl (congrArg (tally.note e) hs)

theorem interface?_connect (hx : t.Has e.1) (hy : t.Has e.2) :
    (t.connect owner e tally).1.interface? x =
      if x = e.1 then (t.interface? x).map fun i => (i.connect owner e.2).2 else t.interface? x := by
  obtain ⟨i, hi, hc⟩ := connect_eq owner tally hx hy
  have hid : (i.connect owner e.2).2.id = e.1 :=
    (i.connect_id owner e.2).1.trans (Keyed.get?_mem hi).2
  rw [hc, interface?_modifyInterface fun _ _ => hid]
  by_cases he : x = e.1
  · rw [if_pos he, if_pos he, he, hi]
    rfl
  · rw [if_neg he, if_neg he]

theorem owner?_connect (hx : t.Has e.1) (hy : t.Has e.2) :
    (t.connect owner e tally).1.owner? x y =
      if (t.owner? x y).isNone ∧ (x, y) = e then some owner else t.owner? x y := by
  unfold owner?
  rw [interface?_connect hx hy]
  by_cases he : x = e.1
  · obtain ⟨i, hi⟩ := has_iff.1 hx
    subst he
    have hpair : (e.1, y) = e ↔ y = e.2 := ⟨fun h => congrArg Prod.snd h, fun h => Prod.ext rfl h⟩
    simp only [hi, if_true, Option.map_some, Option.bind_some, Interface.owner?_connect, hpair]
  · have hpair : (x, y) ≠ e := fun h => he (congrArg Prod.fst h)
    simp [he, hpair]

theorem connect_has (hx : t.Has e.1) (hy : t.Has e.2) :
    (t.connect owner e tally).1.Has id ↔ t.Has id := by
  rw [has_iff, has_iff, interface?_connect hx hy]
  by_cases he : id = e.1
  · cases hi : t.interface? id <;> simp [he]
  · rw [if_neg he]

/-! ## All edges of a group -/

def Ends (t : Topology) (e : Edge) : Prop := t.Has e.1 ∧ t.Has e.2

theorem connect_ends {d : Edge} (he : t.Ends e) :
    (t.connect owner e tally).1.Ends d ↔ t.Ends d :=
  and_congr (connect_has he.1 he.2) (connect_has he.1 he.2)

/-- Edges made in a row: each pair without an owner gets one, and the tally notes every pair as it
was met before the pass, since no two of them are the same. -/
theorem connectAll_owner? (edges : List Edge) : ∀ (t : Topology) (tally : AssociationTally),
    (∀ e ∈ edges, t.Ends e) → edges.Nodup →
      (∀ x y, (edges.foldl (fun (t, tally) e => t.connect owner e tally) (t, tally)).1.owner? x y =
        if (t.owner? x y).isNone ∧ (x, y) ∈ edges then some owner else t.owner? x y) ∧
      (edges.foldl (fun (t, tally) e => t.connect owner e tally) (t, tally)).2 =
        tally.noteAll (t.edgeStatus owner) edges := by
  induction edges with
  | nil => exact fun t tally _ _ => ⟨fun x y => by simp, rfl⟩
  | cons e edges ih =>
    intro t tally hends hn
    obtain ⟨hfresh, hn⟩ := List.nodup_cons.1 hn
    have he := hends e List.mem_cons_self
    obtain ⟨howner, htally⟩ := ih (t.connect owner e tally).1 (t.connect owner e tally).2
      (fun d hd => (connect_ends he).2 (hends d (List.mem_cons_of_mem _ hd))) hn
    rw [List.foldl_cons]
    constructor
    · intro x y
      rw [howner x y, owner?_connect he.1 he.2]
      by_cases hxy : (x, y) = e
      · cases ho : t.owner? x y <;> simp [hxy]
      · simp [hxy]
    · have hstatus : ∀ d ∈ edges, (t.connect owner e tally).1.edgeStatus owner d =
          t.edgeStatus owner d := by
        intro d hd
        have hne : d ≠ e := fun h => hfresh (h ▸ hd)
        unfold edgeStatus
        rw [owner?_connect he.1 he.2, if_neg fun h => hne h.2]
      obtain ⟨i, -, hc⟩ := connect_eq owner tally he.1 he.2
      rw [htally, AssociationTally.noteAll_congr hstatus, hc]
      rfl

theorem Intact.ends (h : Intact t) (hg : g ∈ t.groups) (he : e ∈ g.wanted) : t.Ends e := by
  have hp := h.peopled g hg
  have hm := Group.wanted_members hp.sourced he
  exact ⟨hp.present _ hm.1, hp.present _ hm.2⟩

theorem interface?_connectAll {edges : List Edge} (hx : ∀ e ∈ edges, e.1 ≠ x) :
    (t.connectAll owner edges).1.interface? x = t.interface? x := by
  unfold connectAll
  refine List.foldlRecOn edges _
    (motive := fun s : Topology × AssociationTally => s.1.interface? x = t.interface? x) rfl ?_
  rintro ⟨u, tally⟩ hu e he
  refine Eq.trans ?_ hu
  unfold connect
  dsimp only
  split
  · rename_i source _ hs
    have hid : (source.connect owner e.2).2.id = e.1 :=
      (source.connect_id owner e.2).1.trans (Keyed.get?_mem hs).2
    dsimp only
    rw [interface?_modifyInterface fun _ _ => hid, if_neg (hx e he).symm]
  · rfl

theorem interface?_updateCapture (ids : List InterfaceId) : ∀ t : Topology,
    (t.updateCapture ids).interface? x =
      if x ∈ ids then (t.interface? x).map Interface.updateCapture else t.interface? x := by
  induction ids with
  | nil => exact fun t => by simp [updateCapture]
  | cons id ids ih =>
    intro t
    have hc : t.updateCapture (id :: ids) =
        (t.modifyInterface id Interface.updateCapture).updateCapture ids := rfl
    rw [hc, ih, interface?_modifyInterface (f := Interface.updateCapture) fun _ h => h]
    by_cases hx : x = id
    · subst hx
      cases t.interface? x <;> simp [Interface.updateCapture, Interface.wantsCapture]
    · simp [hx]

theorem owner?_updateCapture (ids : List InterfaceId) :
    (t.updateCapture ids).owner? x y = t.owner? x y := by
  unfold owner?
  rw [interface?_updateCapture]
  split
  · cases t.interface? x <;> rfl
  · rfl

/-- What is no matter of edges or of capture stays. -/
theorem bare_connectAll (owner : GroupId) (edges : List Edge) :
    ((t.connectAll owner edges).1.interface? x).map Interface.bare =
      (t.interface? x).map Interface.bare := by
  unfold connectAll
  refine List.foldlRecOn edges _
    (motive := fun s : Topology × AssociationTally =>
      (s.1.interface? x).map Interface.bare = (t.interface? x).map Interface.bare) rfl ?_
  rintro ⟨u, tally⟩ hu e -
  refine Eq.trans ?_ hu
  unfold connect
  dsimp only
  split
  · rename_i source _ hs
    have hid : (source.connect owner e.2).2.id = e.1 :=
      (source.connect_id owner e.2).1.trans (Keyed.get?_mem hs).2
    dsimp only
    rw [interface?_modifyInterface fun _ _ => hid]
    by_cases he : x = e.1
    · rw [if_pos he, he, hs]
      exact congrArg some Interface.bare_connect
    · rw [if_neg he]
  · rfl

theorem connectAll_eq (owner : GroupId) (edges : List Edge) :
    ∃ is, (t.connectAll owner edges).1 = { t with interfaces := is } := by
  unfold connectAll
  refine List.foldlRecOn edges _
    (motive := fun s : Topology × AssociationTally => ∃ is, s.1 = { t with interfaces := is })
    ⟨t.interfaces, rfl⟩ ?_
  rintro ⟨u, tally⟩ ⟨is, hu⟩ e -
  subst hu
  unfold connect
  dsimp only
  split <;> exact ⟨_, rfl⟩

theorem updateCapture_eq (ids : List InterfaceId) :
    ∃ is, t.updateCapture ids = { t with interfaces := is } := by
  unfold updateCapture
  refine List.foldlRecOn ids _ (motive := fun u : Topology => ∃ is, u = { t with interfaces := is })
    ⟨t.interfaces, rfl⟩ ?_
  rintro _ ⟨is, rfl⟩ id -
  exact ⟨_, rfl⟩

/-! ## The pass of a group -/

theorem associate_eq (hg : t.group? gid = some g) :
    t.associate gid = ((t.connectAll gid g.edges).2.outcome,
      (t.connectAll gid g.edges).1.updateCapture g.members) := by
  unfold associate
  rw [hg]

theorem associate_frame (gid : GroupId) :
    ∃ is, (t.associate gid).2 = { t with interfaces := is } := by
  cases hg : t.group? gid with
  | none =>
    unfold associate
    rw [hg]
    exact ⟨t.interfaces, rfl⟩
  | some g =>
    obtain ⟨is, hc⟩ := connectAll_eq (t := t) gid g.edges
    obtain ⟨js, hu⟩ := updateCapture_eq (t := (t.connectAll gid g.edges).1) g.members
    rw [associate_eq hg, hu, hc]
    exact ⟨js, rfl⟩

theorem associate_groups (t : Topology) (gid : GroupId) : (t.associate gid).2.groups = t.groups := by
  obtain ⟨is, hframe⟩ := associate_frame (t := t) gid
  rw [hframe]

theorem Intact.owner?_associate (h : Intact t) (hg : t.group? gid = some g) :
    (t.associate gid).2.owner? x y =
      if (t.owner? x y).isNone ∧ (x, y) ∈ g.edges then some gid else t.owner? x y := by
  have hm := (h.group?_eq.1 hg).1
  rw [associate_eq hg, owner?_updateCapture]
  exact (connectAll_owner? g.edges t {} (fun e he => h.ends hm (Group.mem_edges_iff.1 he))
    (Group.edges_nodup (h.peopled g hm).sorted)).1 x y

theorem Intact.associate_outcome (h : Intact t) (hg : t.group? gid = some g) :
    (t.associate gid).1 =
      (AssociationTally.noteAll {} (t.edgeStatus gid) g.edges).outcome := by
  have hm := (h.group?_eq.1 hg).1
  rw [associate_eq hg]
  exact congrArg AssociationTally.outcome
    (connectAll_owner? g.edges t {} (fun e he => h.ends hm (Group.mem_edges_iff.1 he))
      (Group.edges_nodup (h.peopled g hm).sorted)).2

theorem Intact.interface?_associate (h : Intact t) (hg : t.group? gid = some g) :
    (t.associate gid).2.interface? x =
      if x ∈ g.members then
        ((t.connectAll gid g.edges).1.interface? x).map Interface.updateCapture
      else t.interface? x := by
  have hp := h.peopled g (h.group?_eq.1 hg).1
  rw [associate_eq hg, interface?_updateCapture]
  by_cases hx : x ∈ g.members
  · rw [if_pos hx, if_pos hx]
  · rw [if_neg hx, if_neg hx, interface?_connectAll]
    rintro e he rfl
    exact hx (Group.wanted_members hp.sourced (Group.mem_edges_iff.1 he)).1

/-- A pass changes interfaces in nothing but edges and capture. -/
theorem Intact.bare_associate (h : Intact t) (gid : GroupId) :
    ((t.associate gid).2.interface? x).map Interface.bare = (t.interface? x).map Interface.bare := by
  cases hg : t.group? gid with
  | none =>
    unfold Topology.associate
    rw [hg]
  | some g =>
    rw [h.interface?_associate hg]
    split
    · rw [← bare_connectAll (x := x) gid g.edges, Option.map_map]
      rfl
    · rfl

theorem associate_ids (gid : GroupId) :
    (t.associate gid).2.interfaces.map Interface.id = t.interfaces.map Interface.id := by
  cases hg : t.group? gid with
  | none =>
    unfold associate
    rw [hg]
  | some g =>
    rw [associate_eq hg]
    have hconnect : (t.connectAll gid g.edges).1.interfaces.map Interface.id =
        t.interfaces.map Interface.id := by
      unfold connectAll
      refine List.foldlRecOn g.edges _ (motive := fun s : Topology × AssociationTally =>
        s.1.interfaces.map Interface.id = t.interfaces.map Interface.id) rfl ?_
      rintro ⟨u, tally⟩ hu e -
      refine Eq.trans ?_ hu
      unfold connect
      dsimp only
      split
      · rename_i source _ hs
        exact Keyed.map_key_modify fun _ _ =>
          (source.connect_id gid e.2).1.trans (Keyed.get?_mem hs).2
      · rfl
    unfold updateCapture
    refine List.foldlRecOn g.members _ (motive := fun u : Topology =>
      u.interfaces.map Interface.id = t.interfaces.map Interface.id) hconnect ?_
    intro u hu y _
    have hy : (u.modifyInterface y Interface.updateCapture).interfaces.map Interface.id =
        u.interfaces.map Interface.id := Keyed.map_key_modify fun _ hj => hj
    exact hy.trans hu

/-! ## A second pass -/

theorem Intact.connectAll_self (h : Intact t) {edges : List Edge}
    (he : ∀ e ∈ edges, t.Ends e ∧ t.owner? e.1 e.2 ≠ none) :
    (t.connectAll owner edges).1 = t := by
  unfold Topology.connectAll
  refine List.foldlRecOn edges _ (motive := fun s : Topology × AssociationTally => s.1 = t) rfl ?_
  rintro ⟨u, tally⟩ rfl e hmem
  obtain ⟨⟨hx, hy⟩, ho⟩ := he e hmem
  obtain ⟨i, hi, hc⟩ := connect_eq owner tally hx hy
  dsimp only
  rw [hc]
  refine h.modifyInterface_self fun j hj => ?_
  rw [hi] at hj
  cases hj
  refine Interface.connect_of_owner ?_
  rw [owner?, hi] at ho
  exact ho

theorem Intact.updateCapture_self (h : Intact t) {ids : List InterfaceId}
    (hc : ∀ id ∈ ids, ∀ i, t.interface? id = some i → i.updateCapture = i) :
    t.updateCapture ids = t := by
  unfold Topology.updateCapture
  refine List.foldlRecOn ids _ (motive := fun u => u = t) rfl ?_
  rintro u rfl id hid
  exact h.modifyInterface_self (hc id hid)

/-- After a pass another one changes nothing, and counts as there what the first one made. -/
theorem Intact.associate_again (h : Intact t) (hg : t.group? gid = some g) :
    (t.associate gid).2.associate gid =
      ((t.associate gid).1.map fun r => { created := 0, existing := r.created + r.existing },
        (t.associate gid).2) := by
  have hu := h.associate gid
  have hm := (h.group?_eq.1 hg).1
  obtain ⟨is, hframe⟩ := associate_frame (t := t) gid
  have hgu : (t.associate gid).2.group? gid = some g := by
    rw [hframe]
    exact hg
  have howner : ∀ e ∈ g.edges, (t.associate gid).2.owner? e.1 e.2 =
      some ((t.owner? e.1 e.2).getD gid) := by
    intro e he
    rw [h.owner?_associate hg]
    cases ho : t.owner? e.1 e.2 with
    | none => rw [if_pos ⟨rfl, he⟩]; rfl
    | some o => rw [if_neg (by simp)]; rfl
  have hstatus : ∀ e ∈ g.edges, (t.associate gid).2.edgeStatus gid e =
      (t.edgeStatus gid e).again := by
    intro e he
    unfold edgeStatus
    rw [howner e he]
    cases t.owner? e.1 e.2 with
    | none => simp [EdgeStatus.again]
    | some o =>
      by_cases ho : o = gid
      · simp [ho, EdgeStatus.again]
      · simp [ho, EdgeStatus.again]
  refine Prod.ext ?_ ?_
  · rw [hu.associate_outcome hgu, h.associate_outcome hg]
    rw [AssociationTally.noteAll_congr hstatus]
    exact AssociationTally.outcome_again (t.edgeStatus gid) g.edges
  · rw [associate_eq hgu]
    dsimp only
    rw [hu.connectAll_self fun e he => ⟨hu.ends (hu.group?_eq.1 hgu).1 (Group.mem_edges_iff.1 he), by
      rw [howner e he]
      exact Option.some_ne_none _⟩]
    refine hu.updateCapture_self fun id hid i hi => ?_
    rw [h.interface?_associate hg, if_pos hid] at hi
    obtain ⟨j, -, rfl⟩ := Option.map_eq_some_iff.1 hi
    rfl

/-! ## The exact effect -/

/-- Wanted pairs that nobody owns. -/
def unclaimed (t : Topology) (g : Group) : Set Edge := {e | e ∈ g.wanted ∧ t.owner? e.1 e.2 = none}

/-- Wanted pairs that the group owns already. -/
def held (t : Topology) (g : Group) : Set Edge :=
  {e | e ∈ g.wanted ∧ t.owner? e.1 e.2 = some g.id}

/-- Wanted pairs that another group owns. -/
def contested (t : Topology) (g : Group) : Set Edge :=
  {e | e ∈ g.wanted ∧ ∃ o, t.owner? e.1 e.2 = some o ∧ o ≠ g.id}

/-- What a pass of a group reports, and what it makes of the topology. -/
structure ExactPass (t : Topology) (g : Group) (r : Except TopologyError AssociationReport)
    (u : Topology) : Prop where
  /-- No edge is taken away or changes hands. -/
  kept : ∀ x y o, t.owner? x y = some o → u.owner? x y = some o
  made : ∀ e ∈ t.unclaimed g, u.owner? e.1 e.2 = some g.id
  /-- Only wanted pairs gain an edge. -/
  others : ∀ x y, (x, y) ∉ g.wanted → u.owner? x y = t.owner? x y
  report : t.contested g = ∅ →
    r = .ok { created := (t.unclaimed g).ncard, existing := (t.held g).ncard }
  /-- The least contested pair is named with its owner and the number of contested pairs. -/
  conflict : (t.contested g).Nonempty → ∃ e o, r = .error (.conflict e o (t.contested g).ncard) ∧
    e ∈ t.contested g ∧ t.owner? e.1 e.2 = some o ∧ ∀ d ∈ t.contested g, d = e ∨ precedes e d
  members : ∀ m ∈ g.members, ∃ i associates, t.interface? m = some i ∧ u.interface? m = some
    { i with associates, captureActive := !associates.isEmpty || !i.flags.divertOutput }
  bystanders : ∀ x, x ∉ g.members → u.interface? x = t.interface? x
  names : u.names = t.names
  groups : u.groups = t.groups
  groupNames : u.groupNames = t.groupNames
  matchers : u.matchers = t.matchers

theorem countP_edges (hn : g.edges.Nodup) (p : Edge → Bool) {q : Edge → Prop}
    (hpq : ∀ e, p e = true ↔ q e) : g.edges.countP p = {e | e ∈ g.wanted ∧ q e}.ncard := by
  have hset : {e | e ∈ g.wanted ∧ q e} = ((g.edges.filter p).toFinset : Set Edge) := by
    ext e
    simp [Group.mem_edges_iff, hpq]
  rw [hset, Set.ncard_coe_finset, List.toFinset_card_of_nodup (hn.filter p), List.countP_eq_length_filter]

theorem contest_eq_some {d : Edge} {o : GroupId} :
    AssociationTally.contest (t.edgeStatus gid) d = some (e, o) ↔
      d = e ∧ t.owner? d.1 d.2 = some o ∧ o ≠ gid := by
  unfold AssociationTally.contest edgeStatus
  cases t.owner? d.1 d.2 with
  | none => simp
  | some p =>
    by_cases hp : p = gid
    · simp only [hp, if_true, reduceCtorEq, false_iff, not_and]
      rintro - ho
      simpa using (Option.some.inj ho).symm
    · simp only [hp, if_false, Option.some.injEq, Prod.mk.injEq]
      constructor
      · rintro ⟨rfl, rfl⟩
        exact ⟨rfl, rfl, hp⟩
      · rintro ⟨rfl, rfl, -⟩
        exact ⟨rfl, rfl⟩

theorem isSome_contest {d : Edge} :
    (AssociationTally.contest (t.edgeStatus gid) d).isSome = true ↔
      ∃ o, t.owner? d.1 d.2 = some o ∧ o ≠ gid := by
  rw [Option.isSome_iff_exists]
  constructor
  · rintro ⟨⟨e, o⟩, h⟩
    exact ⟨o, (contest_eq_some.1 h).2⟩
  · rintro ⟨o, h⟩
    exact ⟨(d, o), contest_eq_some.2 ⟨rfl, h⟩⟩

theorem edgeStatus_created : t.edgeStatus gid e = .created ↔ t.owner? e.1 e.2 = none := by
  unfold edgeStatus
  cases t.owner? e.1 e.2 with
  | none => simp
  | some o => by_cases ho : o = gid <;> simp [ho]

theorem edgeStatus_existing : t.edgeStatus gid e = .existing ↔ t.owner? e.1 e.2 = some gid := by
  unfold edgeStatus
  cases t.owner? e.1 e.2 with
  | none => simp
  | some o => by_cases ho : o = gid <;> simp [ho]

theorem Intact.noteAll_edges (h : Intact t) (hg : g ∈ t.groups) :
    AssociationTally.noteAll {} (t.edgeStatus g.id) g.edges =
      { report := { created := (t.unclaimed g).ncard, existing := (t.held g).ncard }
        firstConflict := g.edges.findSome? (AssociationTally.contest (t.edgeStatus g.id))
        conflicts := (t.contested g).ncard } := by
  have hn := Group.edges_nodup (h.peopled g hg).sorted
  rw [AssociationTally.noteAll_eq,
    countP_edges hn _ (q := fun e => t.owner? e.1 e.2 = none) fun e => by
      rw [decide_eq_true_eq, edgeStatus_created],
    countP_edges hn _ (q := fun e => t.owner? e.1 e.2 = some g.id) fun e => by
      rw [decide_eq_true_eq, edgeStatus_existing],
    countP_edges hn _ (q := fun e => ∃ o, t.owner? e.1 e.2 = some o ∧ o ≠ g.id) fun e =>
      isSome_contest]
  simp [unclaimed, held, contested]

/-- The first conflict that a pass meets is the least. -/
theorem Intact.findSome?_contest (h : Intact t) (hg : g ∈ t.groups)
    (hne : (t.contested g).Nonempty) :
    ∃ e o, g.edges.findSome? (AssociationTally.contest (t.edgeStatus g.id)) = some (e, o) ∧
      e ∈ t.contested g ∧ t.owner? e.1 e.2 = some o ∧ ∀ d ∈ t.contested g, d = e ∨ precedes e d := by
  obtain ⟨d, hd, hod⟩ := hne
  have hsome := List.findSome?_isSome_iff.2 ⟨d, Group.mem_edges_iff.2 hd, isSome_contest.2 hod⟩
  obtain ⟨⟨e, o⟩, hfind⟩ := Option.isSome_iff_exists.1 hsome
  obtain ⟨before, c, after, hsplit, hc, hnone⟩ := List.findSome?_eq_some_iff.1 hfind
  obtain ⟨rfl, ho, hne⟩ := contest_eq_some.1 hc
  have hmem : c ∈ g.edges := hsplit ▸ List.mem_append_right _ List.mem_cons_self
  refine ⟨c, o, hfind, ⟨Group.mem_edges_iff.1 hmem, o, ho, hne⟩, ho, fun d ⟨hd, hod⟩ => ?_⟩
  have horder := Group.edges_ordered (h.peopled g hg).sorted
  have hd := Group.mem_edges_iff.2 hd
  rw [hsplit] at hd horder
  rcases List.mem_append.1 hd with hd | hd
  · have := isSome_contest.2 hod
    rw [hnone d hd] at this
    cases this
  · rcases List.mem_cons.1 hd with rfl | hd
    · exact .inl rfl
    · exact .inr ((List.pairwise_cons.1 (List.pairwise_append.1 horder).2.1).1 d hd)

/-- An association pass is exact and additive, and the one after it finds everything done. -/
theorem associate_exact (h : Reachable t) (hg : t.group? gid = some g) :
    ExactPass t g (t.associate gid).1 (t.associate gid).2 ∧
      (t.associate gid).2.associate gid =
        ((t.associate gid).1.map fun r => { created := 0, existing := r.created + r.existing },
          (t.associate gid).2) := by
  have hi := h.intact
  obtain ⟨hm, rfl⟩ := hi.group?_eq.1 hg
  obtain ⟨is, hframe⟩ := associate_frame (t := t) g.id
  have howner := fun x y => hi.owner?_associate (x := x) (y := y) hg
  have hout := (hi.associate_outcome hg).trans (congrArg _ (hi.noteAll_edges hm))
  refine ⟨?_, hi.associate_again hg⟩
  exact
    { kept := fun x y o ho => by
        rw [howner, ho, if_neg (by simp)]
      made := fun e he => by
        rw [howner, he.2, if_pos ⟨rfl, Group.mem_edges_iff.2 he.1⟩]
      others := fun x y hxy => by
        rw [howner, if_neg fun hc => hxy (Group.mem_edges_iff.1 hc.2)]
      report := fun hnone => by
        have hfind : g.edges.findSome? (AssociationTally.contest (t.edgeStatus g.id)) = none := by
          refine List.findSome?_eq_none_iff.2 fun e he => ?_
          rw [← Option.not_isSome_iff_eq_none, isSome_contest]
          intro ho
          have : e ∈ t.contested g := ⟨Group.mem_edges_iff.1 he, ho⟩
          rw [hnone] at this
          exact this
        rw [hout, hfind]
        rfl
      conflict := fun hne => by
        obtain ⟨e, o, hfind, hrest⟩ := hi.findSome?_contest hm hne
        refine ⟨e, o, ?_, hrest⟩
        rw [hout, hfind]
        rfl
      members := fun m hmem => by
        obtain ⟨i, hfound⟩ := has_iff.1 ((hi.peopled g hm).present m hmem)
        have hbare := bare_connectAll (t := t) (x := m) g.id g.edges
        rw [hfound] at hbare
        obtain ⟨j, hj, hji⟩ := Option.map_eq_some_iff.1 hbare
        refine ⟨i, j.associates, hfound, ?_⟩
        rw [hi.interface?_associate hg, if_pos hmem, hj]
        simp only [Interface.bare, Interface.mk.injEq] at hji
        simp [Interface.updateCapture, Interface.wantsCapture, hji]
      bystanders := fun x hx => by
        rw [hi.interface?_associate hg, if_neg hx]
      names := by rw [hframe]
      groups := by rw [hframe]
      groupNames := by rw [hframe]
      matchers := by rw [hframe] }

/-- Two meshes, the second one of three interfaces. Both hold the first two, which the first mesh
joined. -/
def overlap : List Event :=
  [.addInterface ⟨1⟩ "a", .addInterface ⟨2⟩ "b", .addInterface ⟨3⟩ "c",
    .addGroup "one" .merge .classicalFlooding, .addGroup "two" .merge .classicalFlooding,
    .addMember ⟨1⟩ ⟨1⟩ .destination, .addMember ⟨1⟩ ⟨2⟩ .destination, .associate ⟨1⟩,
    .addMember ⟨2⟩ ⟨1⟩ .destination, .addMember ⟨2⟩ ⟨2⟩ .destination,
    .addMember ⟨2⟩ ⟨3⟩ .destination]

/-- The pass of the second mesh leaves two pairs to the first one and names the lesser. -/
theorem overlap_pass_exact :
    ((overlap.foldl next empty).associate ⟨2⟩).1 = .error (.conflict (⟨1⟩, ⟨2⟩) ⟨1⟩ 2) ∧
      ∃ g, (overlap.foldl next empty).group? ⟨2⟩ = some g ∧
        ExactPass (overlap.foldl next empty) g ((overlap.foldl next empty).associate ⟨2⟩).1
          ((overlap.foldl next empty).associate ⟨2⟩).2 := by
  have hsome : ((overlap.foldl next empty).group? ⟨2⟩).isSome = true := by decide +kernel
  obtain ⟨g, hg⟩ := Option.isSome_iff_exists.1 hsome
  exact ⟨by decide +kernel, g, hg, (associate_exact (reachable_foldl .empty overlap) hg).1⟩

end Topology
end MulticastRelay
