import MulticastRelay.Proofs.Topology.Intact

/-! # The order of matchers

The matchers of a table stand in the order of their stems, and a new one takes its place behind those
of its own stem. So the matchers that a test picks out grow at the end when the new one has the last
stem among them, and stay as they are when the test passes it over.
-/
namespace MulticastRelay

/-- The order of stems in a matcher table: by length in bytes, then by the stem itself. -/
def StemBefore (a b : String) : Prop :=
  a.utf8ByteSize < b.utf8ByteSize ∨ a.utf8ByteSize = b.utf8ByteSize ∧ a < b

namespace StemBefore

variable {a b c : String}

theorem trans (h : StemBefore a b) (k : StemBefore b c) : StemBefore a c := by
  rcases h with h | ⟨h, hab⟩ <;> rcases k with k | ⟨k, hbc⟩
  · exact .inl (h.trans k)
  · exact .inl (k ▸ h)
  · exact .inl (h ▸ k)
  · exact .inr ⟨h.trans k, String.lt_trans hab hbc⟩

theorem irrefl (a : String) : ¬StemBefore a a := by
  rintro (h | ⟨-, h⟩)
  · exact Nat.lt_irrefl _ h
  · exact String.lt_irrefl _ h

theorem ne (h : StemBefore a b) : a ≠ b := by
  rintro rfl
  exact irrefl a h

end StemBefore

theorem Bucket.before_iff {a b : Bucket} : a.before b = true ↔ StemBefore a.stem b.stem := by
  simp [Bucket.before, StemBefore]

namespace MatcherTable

variable {t : MatcherTable} {m : Matcher} {s : String} {bs : List Bucket}

/-- Buckets stand in the order of their stems. -/
def Ranked (t : MatcherTable) : Prop := t.buckets.Pairwise fun a b => StemBefore a.stem b.stem

theorem ranked (t : MatcherTable) : t.Ranked := by
  refine List.pairwise_flatMap.2 ⟨fun r hr => ?_, ?_⟩
  · refine (t.indexed.sorted r hr).imp_of_mem fun {a b} ha hb hab => .inr ⟨?_, hab⟩
    have hsize := (t.indexed.placed r hr a ha).trans (t.indexed.placed r hr b hb).symm
    unfold bitsOf at hsize
    omega
  · refine t.indexed.ascending.imp_of_mem fun {q r} hq hr hqr a ha b hb => .inl ?_
    rw [← t.indexed.placed q hq a ha, ← t.indexed.placed r hr b hb] at hqr
    unfold bitsOf at hqr
    omega

/-- The buckets once there is one for a stem, taken apart at that one. -/
theorem ready_split (h : bs.Pairwise fun a b => StemBefore a.stem b.stem) :
    ∃ xs b ys, b.stem = s ∧ Ascending.insert Bucket.before ⟨s, []⟩ bs = xs ++ b :: ys ∧
      bs.flatMap Bucket.rules = xs.flatMap Bucket.rules ++ b.rules ++ ys.flatMap Bucket.rules ∧
      (∀ x ∈ xs, StemBefore x.stem s) ∧ ∀ y ∈ ys, y ∈ bs ∧ StemBefore s y.stem := by
  induction bs with
  | nil => exact ⟨[], ⟨s, []⟩, [], rfl, rfl, rfl, by simp, by simp⟩
  | cons c cs ih =>
    obtain ⟨hc, hcs⟩ := List.pairwise_cons.1 h
    by_cases hsc : (⟨s, []⟩ : Bucket).before c = true
    · have hlt := Bucket.before_iff.1 hsc
      refine ⟨[], ⟨s, []⟩, c :: cs, rfl, if_pos hsc, rfl, by simp, fun y hy => ⟨hy, ?_⟩⟩
      rcases List.mem_cons.1 hy with rfl | hy
      · exact hlt
      · exact hlt.trans (hc y hy)
    · by_cases hcs' : c.before ⟨s, []⟩ = true
      · obtain ⟨xs, b, ys, hb, hins, hrules, hxs, hys⟩ := ih hcs
        refine ⟨c :: xs, b, ys, hb, ?_, ?_, ?_, fun y hy => ⟨List.mem_cons_of_mem _ (hys y hy).1,
          (hys y hy).2⟩⟩
        · rw [Ascending.insert, if_neg hsc, if_pos hcs', hins]
          rfl
        · simp only [List.flatMap_cons, hrules, List.append_assoc]
        · rintro x hx
          rcases List.mem_cons.1 hx with rfl | hx
          · exact Bucket.before_iff.1 hcs'
          · exact hxs x hx
      · have hs : s = c.stem :=
          Bucket.stem_eq (a := ⟨s, []⟩) (by simpa using hsc) (by simpa using hcs')
        refine ⟨[], c, cs, hs.symm, ?_, rfl, by simp, fun y hy => ⟨List.mem_cons_of_mem _ hy, ?_⟩⟩
        · rw [Ascending.insert, if_neg hsc, if_neg hcs']
          rfl
        · exact hs ▸ hc y hy

theorem modify_split {f : Bucket → Bucket} {xs ys : List Bucket} {b : Bucket} (hb : b.stem = s)
    (hxs : ∀ x ∈ xs, StemBefore x.stem s) (hys : ∀ y ∈ ys, StemBefore s y.stem) :
    Keyed.modify Bucket.stem s f (xs ++ b :: ys) = xs ++ f b :: ys := by
  have hx : Keyed.modify Bucket.stem s f xs = xs := Keyed.modify_of_not_mem fun hin => by
    obtain ⟨x, hx, he⟩ := List.mem_map.1 hin
    exact (hxs x hx).ne he
  have hy : Keyed.modify Bucket.stem s f ys = ys := Keyed.modify_of_not_mem fun hin => by
    obtain ⟨y, hy, he⟩ := List.mem_map.1 hin
    exact (hys y hy).ne he.symm
  have happ : Keyed.modify Bucket.stem s f (xs ++ b :: ys) =
      Keyed.modify Bucket.stem s f xs ++ f b :: Keyed.modify Bucket.stem s f ys := by
    simp [Keyed.modify, hb]
  rw [happ, hx, hy]

/-- A matcher of a new rule stands before those of later stems and after all others. -/
theorem toList_insert (h : t.Ranked) (hf : t.Filed) (hnew : ∀ x ∈ t.toList, m.sameRule x = false) :
    ∃ pre post, t.toList = pre ++ post ∧ (t.insert m).2.toList = pre ++ m :: post ∧
      ∀ x ∈ post, StemBefore m.stem x.stem := by
  obtain ⟨xs, b, ys, hb, hins, hrules, hxs, hys⟩ := ready_split (s := m.stem) h
  have hany : ¬(t.withStem m.stem).any m.sameRule = true := by
    rw [List.any_eq_true]
    rintro ⟨x, hx, hsame⟩
    rw [withStem_eq] at hx
    split at hx
    · rename_i c hc
      have hmem : x ∈ t.toList := by
        rw [toList_eq]
        exact List.mem_flatMap.2 ⟨c, (Keyed.get?_mem hc).1, hx⟩
      rw [hnew x hmem] at hsame
      cases hsame
    · exact absurd hx List.not_mem_nil
  refine ⟨xs.flatMap Bucket.rules ++ b.rules, ys.flatMap Bucket.rules, t.toList_eq.trans hrules, ?_,
    fun x hx => ?_⟩
  · rw [toList_eq, buckets_insert, if_neg hany, hins, modify_split hb hxs fun y hy => (hys y hy).2]
    simp [Shelf.change]
  · obtain ⟨y, hy, hxy⟩ := List.mem_flatMap.1 hx
    rw [hf y (hys y hy).1 x hxy]
    exact (hys y hy).2

theorem filter_insert_of_not {q : Matcher → Bool} (h : t.Ranked) (hf : t.Filed)
    (hnew : ∀ x ∈ t.toList, m.sameRule x = false) (hq : q m = false) :
    (t.insert m).2.toList.filter q = t.toList.filter q := by
  obtain ⟨pre, post, ht, hi, -⟩ := toList_insert h hf hnew
  rw [ht, hi, List.filter_append, List.filter_append, List.filter_cons_of_neg (by simp [hq])]

theorem filter_insert_last {q : Matcher → Bool} (h : t.Ranked) (hf : t.Filed)
    (hnew : ∀ x ∈ t.toList, m.sameRule x = false) (hq : q m = true)
    (hlast : ∀ x ∈ t.toList, q x = true → StemBefore x.stem m.stem) :
    (t.insert m).2.toList.filter q = t.toList.filter q ++ [m] := by
  obtain ⟨pre, post, ht, hi, hpost⟩ := toList_insert h hf hnew
  have hnone : post.filter q = [] := by
    refine List.filter_eq_nil_iff.2 fun x hx hqx => ?_
    have hlt := hlast x (ht ▸ List.mem_append_right _ hx) hqx
    exact StemBefore.irrefl _ (hlt.trans (hpost x hx))
  rw [ht, hi, List.filter_append, List.filter_append, List.filter_cons_of_pos hq, hnone,
    List.append_nil]

theorem mem_insert (h : t.Ranked) (hf : t.Filed) (hnew : ∀ x ∈ t.toList, m.sameRule x = false)
    {x : Matcher} : x ∈ (t.insert m).2.toList ↔ x = m ∨ x ∈ t.toList := by
  obtain ⟨pre, post, ht, hi, -⟩ := toList_insert h hf hnew
  rw [ht, hi]
  simp only [List.mem_append, List.mem_cons]
  tauto

end MatcherTable
end MulticastRelay
