import MulticastRelay.Proofs.Config.Settings

/-! # Start-up and hot-plug -/
namespace MulticastRelay.Config

open MulticastRelay.Topology Applying

variable {links : List Link} {es : List GroupEntry} {e : GroupEntry} {n m : Node}

theorem leads_member {P Q : Node → Prop} {group member : String} {role : Role}
    (h : ∀ n, P n → (∀ y, (n.addMember group member role).1 ≠ .error (.transport y)) →
      Q (n.addMember group member role).2) :
    Leads P (applyMember group member role) fun _ => Q := by
  refine leads_bind leads_get fun k => ?_
  have hq := h k
  cases hm : k.addMember group member role with
  | mk r j =>
    rw [hm] at hq
    refine leads_bind (leads_set (R := fun _ m => m = j ∧ P k) fun n hn => ⟨rfl, hn.1 ▸ hn.2⟩)
      fun _ => ?_
    dsimp only at hq ⊢
    split
    · exact leads_pure fun n hn => hn.1 ▸ hq hn.2 fun y => by simp
    · exact leads_pure fun n hn => hn.1 ▸ hq hn.2 fun y => by simp
    · exact leads_throw

theorem modeRead_eq {mode : Mode} (h : Mode.ofToken e.mode = .ok mode) : e.modeRead = mode := by
  unfold GroupEntry.modeRead
  rw [h]

theorem ofToken_of_groupToken {α : Type} {token : Except TokenError α} {a : α}
    (h : groupToken e token = .ok a) : token = .ok a := by
  unfold groupToken at h
  cases token with
  | error x => cases h
  | ok b =>
    cases h
    rfl

theorem applyMembers_leads (hl : LinkNames links) (ha : Apart (es ++ [e]))
    (hpush : e.source.isSome → e.modeRead = .push) :
    Leads (Applied links (es ++ [e.bare])) (do
      e.source.toList.forM (applyMember e.name · .source)
      e.members.forM (applyMember e.name · .destination)) fun _ => Applied links (es ++ [e]) := by
  refine leads_bind (Q := fun _ => Applied links (es ++ [e.withMembers []])) ?_ fun _ => ?_
  · cases hs : e.source with
    | none =>
      have hbare : e.bare = e.withMembers [] := by
        unfold GroupEntry.bare GroupEntry.withMembers
        rw [hs]
      exact leads_pure fun _ hn => hbare ▸ hn
    | some s =>
      have hp := hpush (by rw [hs]; rfl)
      refine leads_bind (leads_member fun n hn ht => hn.addSource hl ha hp hs ht) fun _ => ?_
      exact leads_pure fun _ hn => hn
  · exact leads_forM (I := fun ms => Applied links (es ++ [e.withMembers ms])) fun done x rest _ =>
      leads_member fun n hn ht => hn.addMember hl ha ht

/-- An entry that is applied in full adds itself to the portrait, and has a source only in push
mode. -/
theorem applyGroup_leads (hl : LinkNames links) (ha : Apart (es ++ [e])) :
    Leads (Applied links es) (applyGroup e) fun _ n =>
      (e.source.isSome → e.modeRead = .push) ∧ Applied links (es ++ [e]) n := by
  unfold applyGroup
  refine leads_bind (leads_lift (Q := fun a n => e.modeRead = a ∧ Applied links es n) ?_)
    fun mode => ?_
  · exact fun a n hr hn => ⟨modeRead_eq (ofToken_of_groupToken hr), hn⟩
  refine leads_of_fact fun hmode => ?_
  refine leads_bind (leads_lift fun _ _ _ hn => hn) fun relay => ?_
  subst hmode
  dsimp only
  split
  · exact leads_bind (Q := fun _ _ => False) leads_throw fun _ _ _ _ hn => hn.elim
  · rename_i hsource
    have hpush : e.source.isSome → e.modeRead = .push := by
      intro hs
      by_contra hm
      exact hsource (by simp [hs, hm])
    refine leads_bind (Q := fun _ => Applied links (es ++ [e.bare]))
      (leads_modify fun n hn => hn.addGroup ha relay) fun _ => ?_
    refine leads_bind (keeps_change fun n m hn hm => hn.setGroupPolicy hm) fun _ => ?_
    exact leads_weaken (applyMembers_leads hl ha hpush) fun _ n hn => ⟨hpush, hn⟩

theorem applyAll_leads {c : Configuration} {now : Instant} (hl : LinkNames links)
    (ha : Apart c.groups) :
    Leads (Applied links []) (applyAll c now) fun _ n =>
      (∀ e ∈ c.groups, e.source.isSome → e.modeRead = .push) ∧ Applied links c.groups n := by
  unfold applyAll
  refine leads_bind (keeps_forM fun e => applyInterface_keeps hl e now) fun _ => ?_
  have hloop := leads_forM (l := c.groups) (f := applyGroup)
    (I := fun done n => (∀ e ∈ done, e.source.isSome → e.modeRead = .push) ∧ Applied links done n)
    fun done e rest hsplit => leads_of_fact fun hdone => by
      have hpre : Apart (done ++ [e]) := by
        rw [hsplit, ← List.singleton_append, ← List.append_assoc] at ha
        exact (List.pairwise_append.1 ha).1
      refine leads_weaken (applyGroup_leads hl hpre) fun _ n hn => ⟨fun f hf => ?_, hn.2⟩
      rcases List.mem_append.1 hf with hf | hf
      · exact hdone f hf
      · cases List.mem_singleton.1 hf
        exact hn.1
  intro n a m hn hr
  exact hloop n a m ⟨fun _ hf => absurd hf List.not_mem_nil, hn⟩ hr

/-! ## The start -/

theorem foldl_putLink (ls acc : List Link) (h : ((acc ++ ls).map Link.name).Nodup) :
    ls.foldl Node.putLink acc = acc ++ ls := by
  induction ls generalizing acc with
  | nil => simp
  | cons l ls ih =>
    have hnone : Keyed.get? Link.name l.name acc = none := by
      refine Keyed.get?_eq_none_iff.2 fun hmem => ?_
      rw [List.map_append] at h
      exact (List.nodup_append.1 h).2.2 _ hmem _ (List.mem_map_of_mem List.mem_cons_self) rfl
    have hput : Node.putLink acc l = acc ++ [l] := by
      unfold Node.putLink Keyed.put
      rw [hnone]
      rfl
    rw [List.foldl_cons, hput, ih _ (by rwa [List.append_assoc])]
    simp

theorem applied_start (settings : NodeSettings) (hl : LinkNames links) :
    Applied links [] ((Node.new settings).setLinks links) := by
  have hlinks : links.foldl Node.putLink [] = links := foldl_putLink links [] hl.names
  refine ⟨⟨congrArg _ hlinks, Nat.le_refl _,
    ⟨empty_settled, ?_, fun stem group role => ?_, ?_⟩⟩, hlinks⟩
  · rw [bound_nil_entries]
    refine empty_picture.trans (Set.eq_empty_of_forall_notMem fun F hF => ?_).symm
    obtain ⟨f, hf, -⟩ := hF
    exact absurd hf List.not_mem_nil
  · refine iff_of_false MatcherTable.not_holds_empty ?_
    rintro ⟨f, hf, -⟩
    exact absurd hf List.not_mem_nil
  · refine ⟨fun l _ a x hx => ?_, fun a x hx => ?_⟩
    · cases hx
    · cases hx

end MulticastRelay.Config
