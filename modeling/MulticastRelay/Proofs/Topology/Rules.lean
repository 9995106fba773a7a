import MulticastRelay.Proofs.Topology.Shelves
import MulticastRelay.Proofs.Topology.Sound

/-! # Rules of a matcher table

Which stems are registered with which group in which role, apart from the order of buckets and of
matchers within them.
-/
namespace MulticastRelay

namespace Ascending

variable {α κ : Type} {before : α → α → Bool} {a : α}

/-- After an insertion the key of the new element is there, under its own entry or an older one. -/
theorem exists_key_insert (key : α → κ)
    (hk : ∀ a b, before a b = false → before b a = false → key a = key b) (xs : List α) :
    ∃ b ∈ insert before a xs, key b = key a := by
  induction xs with
  | nil => exact ⟨a, List.mem_singleton_self a, rfl⟩
  | cons b bs ih =>
    unfold insert
    split
    · exact ⟨a, List.mem_cons_self, rfl⟩
    · rename_i hab
      split
      · obtain ⟨c, hc, he⟩ := ih
        exact ⟨c, List.mem_cons_of_mem _ hc, he⟩
      · rename_i hba
        exact ⟨b, List.mem_cons_self, (hk a b (by simpa using hab) (by simpa using hba)).symm⟩

end Ascending

namespace Bucket

variable {a b : Bucket} {group : String} {role : Role}

theorem stem_eq (hab : a.before b = false) (hba : b.before a = false) : a.stem = b.stem := by
  unfold before at hab hba
  simp only [Bool.or_eq_false_iff, Bool.and_eq_false_iff, decide_eq_false_iff_not,
    beq_eq_false_iff_ne, ne_eq] at hab hba
  have hsize : a.stem.utf8ByteSize = b.stem.utf8ByteSize := by omega
  rcases Std.lt_trichotomy a.stem b.stem with hlt | he | hgt
  · exact (hab.2.elim (fun h => h hsize) fun h => h hlt).elim
  · exact he
  · exact (hba.2.elim (fun h => h hsize.symm) fun h => h hgt).elim

def Holds (b : Bucket) (group : String) (role : Role) : Prop :=
  ∃ m ∈ b.rules, m.group = group ∧ m.role = role

theorem holds_refresh {m : Matcher} :
    Holds { b with rules := m.refresh b.rules } group role ↔ b.Holds group role := by
  have hkeys := m.map_refresh (g := fun n => (n.group, n.role)) (fun _ => rfl) b.rules
  have holds_iff : ∀ c : Bucket,
      c.Holds group role ↔ (group, role) ∈ c.rules.map fun n => (n.group, n.role) := by
    intro c
    unfold Holds
    simp only [List.mem_map, Prod.mk.injEq]
  rw [holds_iff, holds_iff b]
  dsimp only
  rw [hkeys]

theorem holds_append {m : Matcher} :
    Holds { b with rules := b.rules ++ [m] } group role ↔
      b.Holds group role ∨ group = m.group ∧ role = m.role := by
  unfold Holds
  constructor
  · rintro ⟨n, hn, hg, hr⟩
    rcases List.mem_append.1 hn with hn | hn
    · exact .inl ⟨n, hn, hg, hr⟩
    · cases List.mem_singleton.1 hn
      exact .inr ⟨hg.symm, hr.symm⟩
  · rintro (⟨n, hn, hg⟩ | ⟨hg, hr⟩)
    · exact ⟨n, List.mem_append_left _ hn, hg⟩
    · exact ⟨m, List.mem_append_right _ (List.mem_singleton_self m), hg.symm, hr.symm⟩

/-- A bucket of a list holds a rule. -/
def Held (bs : List Bucket) (stem group : String) (role : Role) : Prop :=
  ∃ b ∈ bs, b.stem = stem ∧ b.Holds group role

end Bucket

namespace MatcherTable

variable {t : MatcherTable} {m : Matcher} {stem s group name : String} {role : Role}

def Holds (t : MatcherTable) (stem group : String) (role : Role) : Prop :=
  ∃ b ∈ t.buckets, b.stem = stem ∧ b.Holds group role

theorem not_holds_empty : ¬empty.Holds stem group role := by
  rintro ⟨b, hb, -⟩
  exact absurd hb List.not_mem_nil

/-- The matchers found for a name are those of the stems of the name. -/
theorem exists_mem_matching :
    (∃ m ∈ t.matching name, m.group = group ∧ m.role = role) ↔
      ∃ stem, t.Holds stem group role ∧ isStemOf stem name = true := by
  rw [matching_eq]
  unfold Holds
  simp only [List.mem_flatMap, List.mem_filter, List.mem_reverse]
  constructor
  · rintro ⟨m, ⟨b, ⟨hb, hs⟩, hm⟩, hg⟩
    exact ⟨b.stem, ⟨b, hb, rfl, m, hm, hg⟩, hs⟩
  · rintro ⟨_, ⟨b, hb, rfl, m, hm, hg⟩, hs⟩
    exact ⟨m, ⟨b, ⟨hb, hs⟩, hm⟩, hg⟩

/-- A bucket made ready for a matcher holds no rule yet. -/
theorem holds_ready :
    Bucket.Held (Ascending.insert Bucket.before ⟨s, []⟩ t.buckets) stem group role ↔
      t.Holds stem group role := by
  constructor
  · rintro ⟨b, hb, hs, m, hm, hg⟩
    rcases Ascending.eq_or_mem_of_mem_insert hb with rfl | hb
    · exact absurd hm List.not_mem_nil
    · exact ⟨b, hb, hs, m, hm, hg⟩
  · rintro ⟨b, hb, hr⟩
    exact ⟨b, Ascending.mem_insert_of_mem hb, hr⟩

theorem holds_modify {f : Bucket → Bucket} {P : Prop} {bs : List Bucket}
    (hs : ∀ b, (f b).stem = b.stem) (hf : ∀ b, (f b).Holds group role ↔ b.Holds group role ∨ P) :
    Bucket.Held (Keyed.modify Bucket.stem s f bs) stem group role ↔
      Bucket.Held bs stem group role ∨ stem = s ∧ P ∧ ∃ b ∈ bs, b.stem = s := by
  constructor
  · rintro ⟨_, hc, hstem, hr⟩
    obtain ⟨b, hb, rfl⟩ := Keyed.mem_modify.1 hc
    by_cases hbs : b.stem = s
    · rw [if_pos hbs] at hstem hr
      rw [hs] at hstem
      rcases (hf b).1 hr with hr | hp
      · exact .inl ⟨b, hb, hstem, hr⟩
      · exact .inr ⟨hstem.symm.trans hbs, hp, b, hb, hbs⟩
    · rw [if_neg hbs] at hstem hr
      exact .inl ⟨b, hb, hstem, hr⟩
  · rintro (⟨b, hb, hstem, hr⟩ | ⟨rfl, hp, b, hb, hbs⟩)
    · refine ⟨_, Keyed.mem_modify.2 ⟨b, hb, rfl⟩, ?_⟩
      by_cases hbs : b.stem = s
      · rw [if_pos hbs, hs]
        exact ⟨hstem, (hf b).2 (.inl hr)⟩
      · rw [if_neg hbs]
        exact ⟨hstem, hr⟩
    · refine ⟨_, Keyed.mem_modify.2 ⟨b, hb, rfl⟩, ?_⟩
      rw [if_pos hbs, hs]
      exact ⟨hbs, (hf b).2 (.inr hp)⟩

theorem holds_of_sameRule (h : (t.withStem m.stem).any m.sameRule = true) :
    t.Holds m.stem m.group m.role := by
  obtain ⟨n, hn, hsame⟩ := List.any_eq_true.1 h
  rw [withStem_eq] at hn
  cases hb : Keyed.get? Bucket.stem m.stem t.buckets with
  | none =>
    rw [hb] at hn
    exact absurd hn List.not_mem_nil
  | some b =>
    rw [hb] at hn
    obtain ⟨hmem, hs⟩ := Keyed.get?_mem hb
    simp only [Matcher.sameRule, Bool.and_eq_true, beq_iff_eq] at hsame
    exact ⟨b, hmem, hs, n, hn, hsame.1.2.symm, hsame.2.symm⟩

/-- Registering a matcher adds exactly its rule. -/
theorem holds_insert :
    (t.insert m).2.Holds stem group role ↔
      t.Holds stem group role ∨ stem = m.stem ∧ group = m.group ∧ role = m.role := by
  show Bucket.Held (t.insert m).2.buckets stem group role ↔ _
  rw [buckets_insert]
  split
  · rename_i hsame
    refine (holds_modify (P := False) ?_ fun b => ?_).trans ?_
    · exact fun _ => rfl
    · rw [or_false]
      exact Bucket.holds_refresh
    · rw [holds_ready]
      constructor
      · rintro (h | ⟨-, h, -⟩)
        · exact .inl h
        · exact h.elim
      · rintro (h | ⟨rfl, rfl, rfl⟩)
        · exact .inl h
        · exact .inl (holds_of_sameRule hsame)
  · have hb : ∃ b ∈ Ascending.insert Bucket.before ⟨m.stem, []⟩ t.buckets, b.stem = m.stem :=
      Ascending.exists_key_insert Bucket.stem (fun _ _ => Bucket.stem_eq) t.buckets
    refine (holds_modify ?_ fun _ => Bucket.holds_append).trans ?_
    · exact fun _ => rfl
    · rw [holds_ready]
      refine or_congr_right ⟨?_, ?_⟩
      · rintro ⟨hs, hp, -⟩
        exact ⟨hs, hp⟩
      · rintro ⟨hs, hp⟩
        exact ⟨hs, hp, hb⟩

end MatcherTable
end MulticastRelay
