import MulticastRelay.Proofs.Topology.Catalogue

/-! # Families of groups

A template and the groups made from it form a family. Which family a name belongs to shows in the
name alone, and the walk along the ordered names finds exactly the family of its start.
-/
namespace MulticastRelay.Topology

/-- The name is `base` or that of a group made from it. -/
def InFamily (base name : String) : Prop := name = base ∨ ∃ source, name = instanceName base source

theorem toList_instanceName (base source : String) :
    (instanceName base source).toList = base.toList ++ instanceMark :: source.toList := by
  simp [instanceName, String.toList_append, String.toList_push]

theorem inFamily_iff_toList {base name : String} :
    InFamily base name ↔ name.toList = base.toList ∨
      ∃ cs, name.toList = base.toList ++ instanceMark :: cs := by
  unfold InFamily
  rw [String.toList_inj]
  refine or_congr_right ⟨?_, ?_⟩
  · rintro ⟨source, rfl⟩
    exact ⟨source.toList, toList_instanceName base source⟩
  · rintro ⟨cs, h⟩
    refine ⟨String.ofList cs, String.toList_inj.1 ?_⟩
    rw [toList_instanceName, String.toList_ofList, h]

theorem isStemOf_iff {stem name : String} :
    isStemOf stem name = true ↔ stem.toList <+: name.toList :=
  List.isPrefixOf_iff_prefix

/-- The two tests of the walk pick out the family. -/
theorem inFamily_iff {base name : String} :
    InFamily base name ↔ isStemOf base name = true ∧ sharesName base name = true := by
  rw [inFamily_iff_toList, isStemOf_iff]
  constructor
  · rintro (h | ⟨cs, h⟩)
    · exact ⟨h ▸ List.prefix_refl _, by simp [sharesName, h]⟩
    · exact ⟨h ▸ List.prefix_append _ _, by simp [sharesName, h]⟩
  · rintro ⟨⟨cs, hp⟩, hs⟩
    unfold sharesName at hs
    rw [← hp, List.drop_left] at hs
    cases cs with
    | nil => exact .inl (by simpa using hp.symm)
    | cons c cs =>
      have hc : c = instanceMark := by simpa using hs
      exact .inr ⟨cs, hc ▸ hp.symm⟩

theorem inFamily_self (base : String) : InFamily base base := .inl rfl

theorem inFamily_instance (base source : String) : InFamily base (instanceName base source) :=
  .inr ⟨source, rfl⟩

theorem instanceName_ne (base source : String) : instanceName base source ≠ base := by
  intro h
  have := congrArg (fun s => s.toList.length) h
  simp [toList_instanceName] at this

theorem instanceName_inj {base s u : String} (h : instanceName base s = instanceName base u) :
    s = u := by
  rw [← String.toList_inj, toList_instanceName, toList_instanceName] at h
  exact String.toList_inj.1 (List.cons.inj (List.append_cancel_left h)).2

theorem nested_of_common {b c : String} {name : String} (hb : InFamily b name)
    (hc : InFamily c name) :
    InFamily b c ∨ InFamily c b := by
  simp only [inFamily_iff_toList] at hb hc ⊢
  rcases hb with hb | ⟨xs, hb⟩
  · right
    rw [hb] at hc
    exact hc
  · rcases hc with hc | ⟨ys, hc⟩
    · left
      rw [hc] at hb
      exact .inr ⟨xs, hb⟩
    · rw [hb] at hc
      rcases List.append_eq_append_iff.1 hc with ⟨zs, hz, ht⟩ | ⟨zs, hz, ht⟩
      · left
        cases zs with
        | nil => exact .inl (by simpa using hz)
        | cons z zs =>
          obtain ⟨rfl, -⟩ := List.cons.inj ht
          exact .inr ⟨zs, hz⟩
      · right
        cases zs with
        | nil => exact .inl (by simpa using hz)
        | cons z zs =>
          obtain ⟨rfl, -⟩ := List.cons.inj ht
          exact .inr ⟨zs, hz⟩

/-! ## The walk -/

section Walk

variable {α : Type} {R : α → α → Prop} {p : α → Bool} {l : List α}

/-- A test that holds on an initial part of an ordered list is a filter when it stops early. -/
theorem takeWhile_eq_filter (h : l.Pairwise R)
    (hp : ∀ a ∈ l, ∀ b ∈ l, R a b → p b = true → p a = true) : l.takeWhile p = l.filter p := by
  induction l with
  | nil => rfl
  | cons a l ih =>
    obtain ⟨ha, hl⟩ := List.pairwise_cons.1 h
    have hi := ih hl fun b hb c hc => hp b (List.mem_cons_of_mem _ hb) c (List.mem_cons_of_mem _ hc)
    cases hpa : p a with
    | true => rw [List.takeWhile_cons_of_pos hpa, List.filter_cons_of_pos hpa, hi]
    | false =>
      have hn : l.filter p = [] := List.filter_eq_nil_iff.2 fun b hb hpb => by
        have := hp a List.mem_cons_self b (List.mem_cons_of_mem _ hb) (ha b hb) hpb
        rw [hpa] at this
        cases this
      simp [hpa, hn]

theorem dropWhile_eq_filter (h : l.Pairwise R)
    (hp : ∀ a ∈ l, ∀ b ∈ l, R a b → p b = true → p a = true) :
    l.dropWhile p = l.filter (!p ·) := by
  induction l with
  | nil => rfl
  | cons a l ih =>
    obtain ⟨ha, hl⟩ := List.pairwise_cons.1 h
    have hi := ih hl fun b hb c hc => hp b (List.mem_cons_of_mem _ hb) c (List.mem_cons_of_mem _ hc)
    cases hpa : p a with
    | true => simp [hpa, hi]
    | false =>
      have hn : l.filter (!p ·) = l := List.filter_eq_self.2 fun b hb => by
        cases hpb : p b with
        | false => rfl
        | true =>
          have := hp a List.mem_cons_self b (List.mem_cons_of_mem _ hb) (ha b hb) hpb
          rw [hpa] at this
          cases this
      simp [hpa, hn]

end Walk

theorem not_lt_of_prefix {p a : List Char} (h : p <+: a) : ¬a < p := by
  obtain ⟨cs, rfl⟩ := h
  induction p with
  | nil => simp
  | cons c p ih => simpa using ih

/-- Between a text and its extensions lie only its extensions. -/
theorem prefix_of_between {p a b : List Char} (hpa : ¬a < p) (hab : a < b) (hpb : p <+: b) :
    p <+: a := by
  induction p generalizing a b with
  | nil => exact List.nil_prefix
  | cons c p ih =>
    obtain ⟨cs, rfl⟩ := hpb
    cases a with
    | nil => exact absurd (List.nil_lt_cons c p) hpa
    | cons d a =>
      rw [List.cons_lt_cons_iff] at hpa
      rw [List.cons_append, List.cons_lt_cons_iff] at hab
      rcases hab with hdc | ⟨rfl, hab⟩
      · exact absurd (.inl hdc) hpa
      · have hn : ¬a < p := fun h => hpa (.inr ⟨rfl, h⟩)
        exact List.cons_prefix_cons.2 ⟨rfl, ih hn hab (List.prefix_append p cs)⟩

/-- Along ordered names the walk picks out what it looks for in all of them. -/
theorem Catalogued.groupsSharingName_eq {t : Topology} (h : Catalogued t) (base : String) :
    t.groupsSharingName base =
      (t.groupsByName.filter fun g => isStemOf base g.name && sharesName base g.name).map (·.id) := by
  have hd : t.groupNames.dropWhile (·.1 < base) =
      t.groupNames.filter (fun p => !decide (p.1 < base)) := by
    refine dropWhile_eq_filter h.ordered fun a _ b _ hab hb => ?_
    simp only [decide_eq_true_eq] at hb ⊢
    exact String.lt_trans hab hb
  have ht : (t.groupNames.filter (fun p => !decide (p.1 < base))).takeWhile (isStemOf base ·.1) =
      (t.groupNames.filter (fun p => !decide (p.1 < base))).filter (isStemOf base ·.1) := by
    refine takeWhile_eq_filter (h.ordered.filter _) fun a ha b _ hab hb => ?_
    have ha := (List.mem_filter.1 ha).2
    simp only [Bool.not_eq_true', decide_eq_false_iff_not] at ha
    rw [isStemOf_iff] at hb ⊢
    rw [String.lt_iff] at ha hab
    exact prefix_of_between ha hab hb
  -- no name that starts with `base` comes before it
  have hs : ∀ name : String, isStemOf base name = true → decide (name < base) = false := by
    intro name hname
    rw [decide_eq_false_iff_not, String.lt_iff]
    exact not_lt_of_prefix (isStemOf_iff.1 hname)
  have hwalk : t.groupsSharingName base =
      (t.groupNames.filter fun p => isStemOf base p.1 && sharesName base p.1).map (·.2) := by
    rw [groupsSharingName, hd, ht, List.filter_filter, List.filter_filter]
    refine congrArg _ (List.filter_congr fun p _ => ?_)
    cases hp : isStemOf base p.1 with
    | false => simp
    | true => simp only [hs p.1 hp, Bool.not_false, Bool.and_true, Bool.true_and]
  rw [hwalk, ← h.groupsByName_names, List.filter_map, List.map_map]
  rfl

/-- The walk finds the family, no more and no less. -/
theorem Catalogued.mem_groupsSharingName {t : Topology} {base : String} {id : GroupId}
    (h : Catalogued t) :
    id ∈ t.groupsSharingName base ↔ ∃ g ∈ t.groups, InFamily base g.name ∧ g.id = id := by
  simp only [h.groupsSharingName_eq, List.mem_map, List.mem_filter, h.mem_groupsByName,
    Bool.and_eq_true, inFamily_iff, and_assoc]

end MulticastRelay.Topology
