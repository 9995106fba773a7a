import MulticastRelay.Proofs.Keyed
import MulticastRelay.Topology.Matcher

/-! # Shelves of a matcher table

Shelf by shelf the buckets of a table make one list, in the order of their stems, shorter ones first.
Every operation of the table is an operation of this list: what is looked up, added or taken out on a
shelf could as well be in the list. For that each shelf must hold the stems of one length, since a look
at a shelf is for one stem only.
-/
namespace MulticastRelay

/-! ## Ascending and keyed lists in parts -/

namespace Ascending

variable {α : Type} {before : α → α → Bool} {a : α} {xs ys : List α}

theorem insert_of_after (h : ∀ y ∈ ys, before a y = true) : insert before a ys = a :: ys := by
  cases ys with
  | nil => rfl
  | cons y ys => exact if_pos (h y List.mem_cons_self)

theorem insert_append_of_after (h : ∀ y ∈ ys, before a y = true) :
    insert before a (xs ++ ys) = insert before a xs ++ ys := by
  induction xs with
  | nil => exact insert_of_after h
  | cons x xs ih =>
    rw [List.cons_append, insert, insert, ih]
    split
    · rfl
    · split <;> rfl

theorem insert_append_of_before (h : ∀ x ∈ xs, before a x = false ∧ before x a = true) :
    insert before a (xs ++ ys) = xs ++ insert before a ys := by
  induction xs with
  | nil => rfl
  | cons x xs ih =>
    obtain ⟨hax, hxa⟩ := h x List.mem_cons_self
    rw [List.cons_append, insert, if_neg (by simp [hax]), if_pos hxa,
      ih fun y hy => h y (List.mem_cons_of_mem _ hy)]
    rfl

theorem insert_congr {before' : α → α → Bool}
    (h : ∀ x ∈ xs, before a x = before' a x ∧ before x a = before' x a) :
    insert before a xs = insert before' a xs := by
  induction xs with
  | nil => rfl
  | cons x xs ih =>
    obtain ⟨hax, hxa⟩ := h x List.mem_cons_self
    rw [insert, insert, hax, hxa, ih fun y hy => h y (List.mem_cons_of_mem _ hy)]

end Ascending

namespace Keyed

variable {α κ : Type} [DecidableEq κ] {key : α → κ} {k : κ} {f : α → α} {xs ys : List α}

theorem modify_append : modify key k f (xs ++ ys) = modify key k f xs ++ modify key k f ys :=
  List.map_append

/-- Where keys are distinct, the entries with a key are the one that is found. -/
theorem filter_key (hn : (xs.map key).Nodup) (k : κ) :
    xs.filter (fun a => key a = k) = (get? key k xs).toList := by
  induction xs with
  | nil => rfl
  | cons x xs ih =>
    obtain ⟨hx, hn⟩ := List.nodup_cons.1 hn
    by_cases hk : key x = k
    · have hnone : xs.filter (fun a => key a = k) = [] := by
        refine List.filter_eq_nil_iff.2 fun a ha hak => hx ?_
        rw [hk, ← of_decide_eq_true hak]
        exact List.mem_map_of_mem ha
      rw [List.filter_cons_of_pos (by simpa using hk), hnone]
      simp [get?, hk]
    · rw [List.filter_cons_of_neg (by simpa using hk), ih hn]
      simp [get?, hk]

end Keyed

/-- What a refresh does not give, it does not change. -/
theorem Matcher.map_refresh {β : Type} {g : Matcher → β} (m : Matcher)
    (hg : ∀ n : Matcher, g { n with mode := m.mode, relayType := m.relayType } = g n)
    (ns : List Matcher) : (m.refresh ns).map g = ns.map g := by
  induction ns with
  | nil => rfl
  | cons n ns ih =>
    unfold refresh
    split
    · exact congrArg (· :: ns.map g) (hg n)
    · exact congrArg (g n :: ·) ih

/-! ## Beginnings of a name -/

section Heads

variable {n : Nat} {cs p : List Char}

theorem utf8ByteSize_cons (c : Char) (cs : List Char) :
    (String.ofList (c :: cs)).utf8ByteSize = c.utf8Size + (String.ofList cs).utf8ByteSize := by
  rw [String.ofList_cons, String.utf8ByteSize_append, String.utf8ByteSize_singleton]

/-- The head of a name in bytes is the one beginning of that length, if there is one. -/
theorem headOfBytes?_eq_some_iff :
    headOfBytes? n cs = some p ↔ p <+: cs ∧ (String.ofList p).utf8ByteSize = n := by
  induction cs generalizing n p with
  | nil =>
    rw [List.prefix_nil]
    cases n with
    | zero =>
      simp only [headOfBytes?, Option.some.injEq]
      constructor
      · rintro rfl
        exact ⟨rfl, rfl⟩
      · exact fun h => h.1.symm
    | succ n =>
      simp only [headOfBytes?, reduceCtorEq, false_iff]
      rintro ⟨rfl, h⟩
      cases h
  | cons c cs ih =>
    have hpos := c.utf8Size_pos
    cases n with
    | zero =>
      simp only [headOfBytes?, Option.some.injEq]
      constructor
      · rintro rfl
        exact ⟨List.nil_prefix, rfl⟩
      · rintro ⟨-, h⟩
        cases p with
        | nil => rfl
        | cons d p =>
          have := d.utf8Size_pos
          rw [utf8ByteSize_cons] at h
          omega
    | succ n =>
      unfold headOfBytes?
      cases p with
      | nil =>
        refine iff_of_false ?_ ?_
        · split <;> simp
        · rintro ⟨-, h⟩
          cases h
      | cons d p =>
        rw [List.cons_prefix_cons, utf8ByteSize_cons]
        by_cases hc : c.utf8Size ≤ n + 1
        · rw [if_pos hc]
          simp only [Option.map_eq_some_iff, ih, List.cons.injEq]
          constructor
          · rintro ⟨q, ⟨hq, hn⟩, rfl, rfl⟩
            exact ⟨⟨rfl, hq⟩, by omega⟩
          · rintro ⟨⟨rfl, hq⟩, hn⟩
            exact ⟨p, ⟨hq, by omega⟩, rfl, rfl⟩
        · rw [if_neg hc]
          refine iff_of_false nofun ?_
          rintro ⟨⟨rfl, -⟩, hn⟩
          omega

end Heads

/-! ## One shelf -/

/-- The order of buckets over all shelves: shorter stems come first, in bytes, and equally long ones in
their own order. -/
def Bucket.before (a b : Bucket) : Bool :=
  a.stem.utf8ByteSize < b.stem.utf8ByteSize ||
    (a.stem.utf8ByteSize == b.stem.utf8ByteSize && a.stem < b.stem)

theorem Bucket.before_of_bits {a b : Bucket} (h : bitsOf a.stem < bitsOf b.stem) :
    a.before b = true ∧ b.before a = false := by
  unfold bitsOf at h
  have hlt : a.stem.utf8ByteSize < b.stem.utf8ByteSize := by omega
  have hnot : ¬b.stem.utf8ByteSize < a.stem.utf8ByteSize := by omega
  have hne : b.stem.utf8ByteSize ≠ a.stem.utf8ByteSize := by omega
  unfold before
  simp [hlt, hnot, hne]

/-- Buckets of other lengths are not those of a stem. -/
theorem Bucket.modify_of_bits {stem : String} {g : Bucket → Bucket} {bs : List Bucket}
    (h : ∀ b ∈ bs, bitsOf b.stem ≠ bitsOf stem) : Keyed.modify Bucket.stem stem g bs = bs := by
  apply Keyed.modify_of_not_mem
  intro hm
  obtain ⟨b, hb, rfl⟩ := List.mem_map.1 hm
  exact h b hb rfl

namespace Shelf

variable {s : Shelf} {stem : String} {f : List Matcher → List Matcher}

/-- The bucket of a stem with its matchers changed. -/
def change (f : List Matcher → List Matcher) (b : Bucket) : Bucket := { b with rules := f b.rules }

/-- On one shelf buckets are in the order that they have over all shelves. -/
theorem buckets_alter (hp : ∀ b ∈ s.buckets, bitsOf b.stem = s.bits) (hs : bitsOf stem = s.bits) :
    (s.alter stem f).buckets = Keyed.modify Bucket.stem stem (change f)
      (Ascending.insert Bucket.before ⟨stem, []⟩ s.buckets) := by
  have hsize : ∀ b ∈ s.buckets, b.stem.utf8ByteSize = stem.utf8ByteSize := by
    intro b hb
    have := (hp b hb).trans hs.symm
    unfold bitsOf at this
    omega
  refine congrArg (Keyed.modify Bucket.stem stem (change f)) (Ascending.insert_congr fun b hb => ?_)
  have := hsize b hb
  unfold Bucket.precedes Bucket.before
  simp [this]

/-- A look at a shelf finds the bucket whose stem the name starts with, and there is one at most. -/
theorem probe_eq (hs : s.buckets.Pairwise fun a b => a.stem < b.stem)
    (hp : ∀ b ∈ s.buckets, bitsOf b.stem = s.bits) (name : String) :
    s.probe name = (s.buckets.reverse.filter fun b => isStemOf b.stem name).flatMap Bucket.rules := by
  have hsize : ∀ b ∈ s.buckets, b.stem.utf8ByteSize = s.bits / 8 := by
    intro b hb
    have := hp b hb
    unfold bitsOf at this
    omega
  -- A bucket is wanted when its stem is what the look is for.
  have hwanted : ∀ b ∈ s.buckets, isStemOf b.stem name = true ↔
      headOfBytes? (s.bits / 8) name.toList = some b.stem.toList := by
    intro b hb
    rw [headOfBytes?_eq_some_iff, String.ofList_toList, isStemOf, List.isPrefixOf_iff_prefix]
    exact ⟨fun h => ⟨h, hsize b hb⟩, And.left⟩
  rw [List.filter_reverse]
  unfold probe
  cases hh : headOfBytes? (s.bits / 8) name.toList with
  | none =>
    have hnone : s.buckets.filter (fun b => isStemOf b.stem name) = [] := by
      refine List.filter_eq_nil_iff.2 fun b hb hstem => ?_
      cases hh.symm.trans ((hwanted b hb).1 hstem)
    rw [hnone]
    rfl
  | some stem =>
    have hsame : s.buckets.filter (fun b => isStemOf b.stem name) =
        s.buckets.filter (fun b => b.stem = String.ofList stem) := by
      refine List.filter_congr fun b hb => Bool.eq_iff_iff.2 ?_
      rw [hwanted b hb, hh, Option.some.injEq, decide_eq_true_eq]
      constructor
      · intro h
        rw [h, String.ofList_toList]
      · intro h
        rw [h, String.toList_ofList]
    have hn : (s.buckets.map Bucket.stem).Nodup := by
      refine List.pairwise_map.2 (hs.imp fun {a b} hab he => ?_)
      rw [he] at hab
      exact String.lt_irrefl _ hab
    rw [hsame, Keyed.filter_key hn]
    dsimp only
    unfold rules
    cases Keyed.get? Bucket.stem (String.ofList stem) s.buckets with
    | none => rfl
    | some b => exact (List.append_nil b.rules).symm

/-! ## Shelves -/

variable {shelves : List Shelf}

theorem modify_of_bits {g : Shelf → Shelf} {k : Nat} (h : ∀ s ∈ shelves, s.bits ≠ k) :
    Keyed.modify Shelf.bits k g shelves = shelves := by
  apply Keyed.modify_of_not_mem
  intro hm
  obtain ⟨s, hs, rfl⟩ := List.mem_map.1 hm
  exact h s hs rfl

/-- A stem that is shorter than all others gets a shelf before them. -/
theorem alterAt_of_shorter (h : ∀ s ∈ shelves, bitsOf stem < s.bits) :
    alterAt stem f shelves = alter stem f ⟨bitsOf stem, []⟩ :: shelves := by
  have hins : Ascending.insert before ⟨bitsOf stem, []⟩ shelves =
      [⟨bitsOf stem, []⟩] ++ shelves :=
    Ascending.insert_of_after fun s hs => decide_eq_true (h s hs)
  rw [alterAt, hins, Keyed.modify_append, modify_of_bits fun s hs => Nat.ne_of_gt (h s hs)]
  simp [Keyed.modify]

/-- A stem with a shelf is altered there. -/
theorem alterAt_of_bits (hs : bitsOf stem = s.bits) (h : ∀ r ∈ shelves, s.bits < r.bits) :
    alterAt stem f (s :: shelves) = s.alter stem f :: shelves := by
  have hins : Ascending.insert before ⟨bitsOf stem, []⟩ (s :: shelves) = [s] ++ shelves := by
    rw [Ascending.insert, if_neg (by simp [before, hs]), if_neg (by simp [before, hs])]
    rfl
  have hkeep : Keyed.modify bits (bitsOf stem) (alter stem f) shelves = shelves :=
    modify_of_bits fun r hr => hs ▸ Nat.ne_of_gt (h r hr)
  have hone : Keyed.modify bits (bitsOf stem) (alter stem f) [s] = [s.alter stem f] := by
    rw [Keyed.modify, List.map_singleton, if_pos hs.symm]
  rw [alterAt, hins, Keyed.modify_append, hkeep, hone]
  rfl

/-- A shelf of shorter stems is passed over. -/
theorem alterAt_of_longer (hs : s.bits < bitsOf stem) :
    alterAt stem f (s :: shelves) = s :: alterAt stem f shelves := by
  have hnot : ¬bitsOf stem < s.bits := Nat.not_lt_of_gt hs
  have hne : s.bits ≠ bitsOf stem := Nat.ne_of_lt hs
  have hins : Ascending.insert before ⟨bitsOf stem, []⟩ (s :: shelves) =
      [s] ++ Ascending.insert before ⟨bitsOf stem, []⟩ shelves := by
    rw [Ascending.insert, if_neg (by simp [before, hnot]), if_pos (by simp [before, hs])]
    rfl
  rw [alterAt, hins, Keyed.modify_append]
  simp [Keyed.modify, hne, alterAt]

end Shelf

/-! ## The list of buckets -/

namespace MatcherTable

/-- The buckets of a table, shelf by shelf. -/
def buckets (t : MatcherTable) : List Bucket := t.shelves.flatMap Shelf.buckets

theorem toList_eq (t : MatcherTable) : t.toList = t.buckets.flatMap Bucket.rules :=
  List.flatMap_assoc.symm

end MatcherTable

namespace Indexed

variable {s : Shelf} {shelves : List Shelf} {stem : String}

theorem tail (h : Indexed (s :: shelves)) : Indexed shelves where
  ascending := (List.pairwise_cons.1 h.ascending).2
  sorted r hr := h.sorted r (List.mem_cons_of_mem _ hr)
  placed r hr := h.placed r (List.mem_cons_of_mem _ hr)

/-- Buckets of the shelves after the first have longer stems than it. -/
theorem longer (h : Indexed (s :: shelves)) {b : Bucket} (hb : b ∈ shelves.flatMap Shelf.buckets) :
    s.bits < bitsOf b.stem := by
  obtain ⟨r, hr, hb⟩ := List.mem_flatMap.1 hb
  rw [h.placed r (List.mem_cons_of_mem _ hr) b hb]
  exact (List.pairwise_cons.1 h.ascending).1 r hr

/-- A shelf of one length is altered as the list of all buckets would be. -/
theorem buckets_alterAt (h : Indexed shelves) (stem : String) (f : List Matcher → List Matcher) :
    (Shelf.alterAt stem f shelves).flatMap Shelf.buckets =
      Keyed.modify Bucket.stem stem (Shelf.change f)
        (Ascending.insert Bucket.before ⟨stem, []⟩ (shelves.flatMap Shelf.buckets)) := by
  induction shelves with
  | nil =>
    rw [Shelf.alterAt_of_shorter fun s hs => absurd hs List.not_mem_nil]
    exact List.append_nil _
  | cons s ss ih =>
    have hplaced := h.placed s List.mem_cons_self
    have hrest := (List.pairwise_cons.1 h.ascending).1
    have hlonger : ∀ b ∈ ss.flatMap Shelf.buckets, s.bits < bitsOf b.stem := fun b hb => h.longer hb
    rcases Nat.lt_trichotomy (bitsOf stem) s.bits with hlt | heq | hgt
    · have hshelves : ∀ r ∈ s :: ss, bitsOf stem < r.bits := by
        intro r hr
        rcases List.mem_cons.1 hr with rfl | hr
        · exact hlt
        · exact Nat.lt_trans hlt (hrest r hr)
      have hlate : ∀ b ∈ (s :: ss).flatMap Shelf.buckets, bitsOf stem < bitsOf b.stem := by
        intro b hb
        obtain ⟨r, hr, hb⟩ := List.mem_flatMap.1 hb
        rw [h.placed r hr b hb]
        exact hshelves r hr
      have hins : Ascending.insert Bucket.before ⟨stem, []⟩ ((s :: ss).flatMap Shelf.buckets) =
          [⟨stem, []⟩] ++ (s :: ss).flatMap Shelf.buckets :=
        Ascending.insert_of_after fun b hb =>
          (Bucket.before_of_bits (a := ⟨stem, []⟩) (hlate b hb)).1
      rw [Shelf.alterAt_of_shorter hshelves, List.flatMap_cons, hins, Keyed.modify_append,
        Bucket.modify_of_bits fun b hb => Nat.ne_of_gt (hlate b hb)]
      rfl
    · have hlate : ∀ b ∈ ss.flatMap Shelf.buckets, bitsOf stem < bitsOf b.stem := by
        intro b hb
        rw [heq]
        exact hlonger b hb
      have hins : Ascending.insert Bucket.before ⟨stem, []⟩ (s.buckets ++ ss.flatMap Shelf.buckets) =
          Ascending.insert Bucket.before ⟨stem, []⟩ s.buckets ++ ss.flatMap Shelf.buckets :=
        Ascending.insert_append_of_after fun b hb => (Bucket.before_of_bits (a := ⟨stem, []⟩) (hlate b hb)).1
      have hkeep : Keyed.modify Bucket.stem stem (Shelf.change f) (ss.flatMap Shelf.buckets) =
          ss.flatMap Shelf.buckets :=
        Bucket.modify_of_bits fun b hb => Nat.ne_of_gt (hlate b hb)
      rw [Shelf.alterAt_of_bits heq hrest, List.flatMap_cons, List.flatMap_cons,
        Shelf.buckets_alter hplaced heq, hins, Keyed.modify_append, hkeep]
    · have hearly : ∀ b ∈ s.buckets, bitsOf b.stem < bitsOf stem := by
        intro b hb
        rw [hplaced b hb]
        exact hgt
      have hins : Ascending.insert Bucket.before ⟨stem, []⟩ (s.buckets ++ ss.flatMap Shelf.buckets) =
          s.buckets ++ Ascending.insert Bucket.before ⟨stem, []⟩ (ss.flatMap Shelf.buckets) :=
        Ascending.insert_append_of_before fun b hb =>
          (Bucket.before_of_bits (b := ⟨stem, []⟩) (hearly b hb)).symm
      have hkeep : Keyed.modify Bucket.stem stem (Shelf.change f) s.buckets = s.buckets :=
        Bucket.modify_of_bits fun b hb => Nat.ne_of_lt (hearly b hb)
      rw [Shelf.alterAt_of_longer hgt, List.flatMap_cons, List.flatMap_cons, ih h.tail, hins,
        Keyed.modify_append, hkeep]

/-- A stem is found on the shelf of its length or nowhere. -/
theorem get?_buckets (h : Indexed shelves) (stem : String) :
    Keyed.get? Bucket.stem stem (shelves.flatMap Shelf.buckets) =
      (Keyed.get? Shelf.bits (bitsOf stem) shelves).bind
        fun s => Keyed.get? Bucket.stem stem s.buckets := by
  have absent : ∀ bs : List Bucket, (∀ b ∈ bs, bitsOf b.stem ≠ bitsOf stem) →
      Keyed.get? Bucket.stem stem bs = none := by
    intro bs hbs
    rw [Keyed.get?_eq_none_iff]
    intro hm
    obtain ⟨b, hb, he⟩ := List.mem_map.1 hm
    exact hbs b hb (congrArg bitsOf he)
  induction shelves with
  | nil => rfl
  | cons s ss ih =>
    have happend : Keyed.get? Bucket.stem stem ((s :: ss).flatMap Shelf.buckets) =
        (Keyed.get? Bucket.stem stem s.buckets).or
          (Keyed.get? Bucket.stem stem (ss.flatMap Shelf.buckets)) := List.find?_append
    rw [happend]
    by_cases hs : s.bits = bitsOf stem
    · have hfirst : Keyed.get? Shelf.bits (bitsOf stem) (s :: ss) = some s := by
        simp [Keyed.get?, hs]
      rw [hfirst, absent (ss.flatMap Shelf.buckets) fun b hb => Nat.ne_of_gt (hs ▸ h.longer hb)]
      exact Option.or_none
    · have hrest : Keyed.get? Shelf.bits (bitsOf stem) (s :: ss) =
          Keyed.get? Shelf.bits (bitsOf stem) ss := by
        simp [Keyed.get?, hs]
      have hnone : Keyed.get? Bucket.stem stem s.buckets = none :=
        absent s.buckets fun b hb => h.placed s List.mem_cons_self b hb ▸ hs
      rw [hrest, hnone, ← ih h.tail]
      rfl

end Indexed

namespace MatcherTable

variable {m : Matcher} {group : String}

theorem buckets_alter (t : MatcherTable) (stem : String) (f : List Matcher → List Matcher) :
    (t.alter stem f).buckets = Keyed.modify Bucket.stem stem (Shelf.change f)
      (Ascending.insert Bucket.before ⟨stem, []⟩ t.buckets) :=
  t.indexed.buckets_alterAt stem f

/-- Either way one bucket changes. -/
theorem buckets_insert (t : MatcherTable) (m : Matcher) :
    (t.insert m).2.buckets = Keyed.modify Bucket.stem m.stem
      (Shelf.change (if (t.withStem m.stem).any m.sameRule then m.refresh else (· ++ [m])))
      (Ascending.insert Bucket.before ⟨m.stem, []⟩ t.buckets) := by
  unfold insert
  split
  · exact t.buckets_alter m.stem m.refresh
  · exact t.buckets_alter m.stem (· ++ [m])

theorem withStem_eq (t : MatcherTable) (stem : String) : t.withStem stem =
    match Keyed.get? Bucket.stem stem t.buckets with
    | some b => b.rules
    | none => [] := by
  unfold withStem buckets
  rw [t.indexed.get?_buckets]
  cases Keyed.get? Shelf.bits (bitsOf stem) t.shelves with
  | none => rfl
  | some s => rfl

theorem matching_eq (t : MatcherTable) (name : String) : t.matching name =
    (t.buckets.reverse.filter fun b => isStemOf b.stem name).flatMap Bucket.rules := by
  have hprobe : t.matching name = t.shelves.reverse.flatMap fun s =>
      (s.buckets.reverse.filter fun b => isStemOf b.stem name).flatMap Bucket.rules := by
    refine List.flatMap_congr fun s hs => ?_
    have hs := List.mem_reverse.1 hs
    exact Shelf.probe_eq (t.indexed.sorted s hs) (t.indexed.placed s hs) name
  unfold buckets
  rw [hprobe, List.reverse_flatMap, List.filter_flatMap, List.flatMap_assoc]
  rfl

theorem buckets_removeGroup (t : MatcherTable) (group : String) :
    (t.removeGroup group).buckets =
      (t.buckets.map (Bucket.without group)).filter fun b => !b.rules.isEmpty := by
  show (Shelf.withoutAll group t.shelves).flatMap Shelf.buckets = _
  unfold buckets Shelf.withoutAll
  induction t.shelves with
  | nil => rfl
  | cons s ss ih =>
    rw [List.flatMap_cons, List.map_append, List.filter_append, ← ih, List.map_cons,
      List.filter_cons]
    -- A shelf that is left empty has nothing to add to the list.
    split
    · rfl
    · rename_i hempty
      have hnil : (s.without group).buckets = [] := by simpa using hempty
      rw [show (s.buckets.map (Bucket.without group)).filter (fun b => !b.rules.isEmpty) = [] from
        hnil]
      rfl

end MatcherTable
end MulticastRelay
