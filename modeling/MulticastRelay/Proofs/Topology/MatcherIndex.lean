import MulticastRelay.Proofs.Topology.GroupRemoval
import MulticastRelay.Proofs.Topology.MatcherOrder
import Mathlib.Data.List.Infix
import Mathlib.Data.List.Induction

/-! # The index of matchers

A table of matchers shows what a scan of a plain list would show: the list of the matchers in the order
in which their rules came. Nothing of shelves, of buckets or of the count that is kept apart is to be
seen from outside. After any course of insertions and removals table and list go together, and what is
in the list is told from the course alone.
-/
namespace MulticastRelay

/-! ## Lookups -/

namespace Ascending

variable {α κ : Type} [DecidableEq κ] {before : α → α → Bool} {key : α → κ} {a : α} {k : κ}
  {xs : List α}

/-- Other keys do not see an element come in. -/
theorem get?_insert_of_ne (hk : key a ≠ k) :
    Keyed.get? key k (insert before a xs) = Keyed.get? key k xs := by
  unfold Keyed.get?
  rw [← List.head?_filter, ← List.head?_filter, filter_insert_of_neg (by simpa using hk)]

/-- Its own key finds the new element, or the one that was there. -/
theorem get?_insert_self (hlt : ∀ a b, before a b = true → key a ≠ key b)
    (heq : ∀ a b, before a b = false → before b a = false → key a = key b)
    (trans : ∀ {a b c}, before a b = true → before b c = true → before a c = true)
    (h : xs.Pairwise (before · ·)) :
    Keyed.get? key (key a) (insert before a xs) = some ((Keyed.get? key (key a) xs).getD a) := by
  induction xs with
  | nil => simp [insert, Keyed.get?]
  | cons b bs ih =>
    obtain ⟨hb, hbs⟩ := List.pairwise_cons.1 h
    unfold insert
    split
    · rename_i hab
      have hnone : Keyed.get? key (key a) (b :: bs) = none := by
        refine Keyed.get?_eq_none_iff.2 fun hm => ?_
        obtain ⟨c, hc, he⟩ := List.mem_map.1 hm
        rcases List.mem_cons.1 hc with rfl | hc
        · exact hlt a c hab he.symm
        · exact hlt a c (trans hab (hb c hc)) he.symm
      rw [hnone]
      simp [Keyed.get?]
    · rename_i hab
      split
      · rename_i hba
        have hne := hlt b a hba
        have skip : ∀ ys, Keyed.get? key (key a) (b :: ys) = Keyed.get? key (key a) ys := by
          intro ys
          simp [Keyed.get?, hne]
        rw [skip, skip, ih hbs]
      · rename_i hba
        have hsame : key b = key a := heq b a (by simpa using hba) (by simpa using hab)
        simp [Keyed.get?, hsame]

end Ascending

/-- Where keys are distinct, an entry is found if it passes the filter. -/
theorem Keyed.get?_filter {α κ : Type} [DecidableEq κ] {key : α → κ} {xs : List α}
    (hn : (xs.map key).Nodup) (p : α → Bool) (k : κ) :
    get? key k (xs.filter p) = (get? key k xs).filter p := by
  have hsub : ((xs.filter p).map key).Nodup := hn.sublist (List.filter_sublist.map key)
  apply Option.ext
  intro a
  rw [get?_eq_some_iff hsub, List.mem_filter, Option.filter_eq_some_iff, get?_eq_some_iff hn]
  tauto

/-! ## Rules -/

namespace Matcher

variable {m n : Matcher} {ns : List Matcher} {stem : String}

/-- What makes matchers one rule. -/
def rule (m : Matcher) : String × String × Role := (m.stem, m.group, m.role)

theorem sameRule_iff : m.sameRule n = true ↔ m.rule = n.rule := by
  simp [sameRule, rule, and_assoc]

theorem length_refresh (m : Matcher) (ns : List Matcher) : (m.refresh ns).length = ns.length := by
  simpa using congrArg List.length (m.map_refresh (g := fun _ => ()) (fun _ => rfl) ns)

theorem map_rule_refresh (m : Matcher) (ns : List Matcher) :
    (m.refresh ns).map rule = ns.map rule :=
  m.map_refresh (fun _ => rfl) ns

/-- A refresh is one of the stem of the matcher only. -/
theorem filter_refresh (m : Matcher) (ns : List Matcher) (stem : String) :
    (m.refresh ns).filter (·.stem = stem) =
      if stem = m.stem then m.refresh (ns.filter (·.stem = stem))
      else ns.filter (·.stem = stem) := by
  induction ns with
  | nil => simp [refresh]
  | cons n ns ih =>
    by_cases hsame : m.sameRule n = true
    · have hstem : n.stem = m.stem := (congrArg Prod.fst (sameRule_iff.1 hsame)).symm
      by_cases hs : stem = m.stem <;> simp [refresh, hsame, hstem, hs, eq_comm]
    · by_cases hn : n.stem = stem
      · simp only [refresh, hsame, hn, if_false, List.filter_cons, decide_true, if_true, ih,
          Bool.false_eq_true]
        split <;> rfl
      · simp only [refresh, hsame, hn, if_false, List.filter_cons, decide_false, ih,
          Bool.false_eq_true]

/-- Where rules are distinct, a refresh puts the matcher in the place of its rule. -/
theorem mem_refresh (hn : (ns.map rule).Nodup) (hm : ns.any m.sameRule = true) :
    n ∈ m.refresh ns ↔ n = m ∨ n ∈ ns ∧ m.rule ≠ n.rule := by
  induction ns with
  | nil => cases hm
  | cons k ns ih =>
    obtain ⟨hk, hn⟩ := List.nodup_cons.1 hn
    unfold refresh
    split
    · rename_i hsame
      have hrule := sameRule_iff.1 hsame
      have hfresh : { k with mode := m.mode, relayType := m.relayType } = m := by
        simp only [rule, Prod.mk.injEq] at hrule
        obtain ⟨hstem, hgroup, hrole⟩ := hrule
        rw [← hstem, ← hgroup, ← hrole]
      have hrest : n ∈ ns → m.rule ≠ n.rule := by
        intro hmem he
        exact hk (hrule.symm.trans he ▸ List.mem_map_of_mem hmem)
      rw [hfresh, List.mem_cons, List.mem_cons]
      constructor
      · rintro (rfl | hmem)
        · exact .inl rfl
        · exact .inr ⟨.inr hmem, hrest hmem⟩
      · rintro (rfl | ⟨rfl | hmem, hne⟩)
        · exact .inl rfl
        · exact absurd hrule hne
        · exact .inr hmem
    · rename_i hsame
      have hne : m.rule ≠ k.rule := fun he => hsame (sameRule_iff.2 he)
      have hm' : ns.any m.sameRule = true := by simpa [hsame] using hm
      rw [List.mem_cons, List.mem_cons, ih hn hm']
      constructor
      · rintro (rfl | rfl | ⟨hmem, hr⟩)
        · exact .inr ⟨.inl rfl, hne⟩
        · exact .inl rfl
        · exact .inr ⟨.inr hmem, hr⟩
      · rintro (rfl | ⟨rfl | hmem, hr⟩)
        · exact .inr (.inl rfl)
        · exact .inl rfl
        · exact .inr (.inr ⟨hmem, hr⟩)

end Matcher

/-! ## Operations seen from one stem -/

namespace MatcherTable

variable {t : MatcherTable} {m : Matcher} {group : String}

theorem nodup_stems (t : MatcherTable) : (t.buckets.map Bucket.stem).Nodup :=
  List.pairwise_map.2 (t.ranked.imp StemBefore.ne)

theorem withStem_alter (t : MatcherTable) (stem : String) (f : List Matcher → List Matcher)
    (p : String) :
    (t.alter stem f).withStem p = if p = stem then f (t.withStem stem) else t.withStem p := by
  have hchange : ∀ b : Bucket, b.stem = stem → (Shelf.change f b).stem = stem := fun _ h => h
  rw [withStem_eq, withStem_eq, withStem_eq, buckets_alter, Keyed.get?_modify hchange]
  by_cases hp : p = stem
  · have hself : Keyed.get? Bucket.stem stem
        (Ascending.insert Bucket.before ⟨stem, []⟩ t.buckets) =
          some ((Keyed.get? Bucket.stem stem t.buckets).getD ⟨stem, []⟩) :=
      Ascending.get?_insert_self (a := Bucket.mk stem [])
        (fun _ _ h => (Bucket.before_iff.1 h).ne) (fun _ _ => Bucket.stem_eq)
        (fun h k => Bucket.before_iff.2 ((Bucket.before_iff.1 h).trans (Bucket.before_iff.1 k)))
        (t.ranked.imp Bucket.before_iff.2)
    rw [if_pos hp, if_pos hp, hself]
    cases Keyed.get? Bucket.stem stem t.buckets with
    | none => rfl
    | some b => rfl
  · rw [if_neg hp, if_neg hp, Ascending.get?_insert_of_ne (Ne.symm hp)]

theorem withStem_insert (t : MatcherTable) (m : Matcher) (p : String) :
    (t.insert m).2.withStem p =
      if p = m.stem then
        if (t.withStem p).any m.sameRule then m.refresh (t.withStem p) else t.withStem p ++ [m]
      else t.withStem p := by
  by_cases hp : p = m.stem
  · subst hp
    unfold insert
    split
    · exact (t.withStem_alter m.stem m.refresh m.stem).trans (by simp)
    · exact (t.withStem_alter m.stem (· ++ [m]) m.stem).trans (by simp)
  · unfold insert
    rw [if_neg hp]
    split
    · exact (t.withStem_alter m.stem m.refresh p).trans (if_neg hp)
    · exact (t.withStem_alter m.stem (· ++ [m]) p).trans (if_neg hp)

/-- A bucket that is left empty shows no less than no bucket. -/
theorem withStem_removeGroup (t : MatcherTable) (group p : String) :
    (t.removeGroup group).withStem p = (t.withStem p).filter (·.group ≠ group) := by
  have hkeys : ((t.buckets.map (Bucket.without group)).map Bucket.stem).Nodup := by
    rw [List.map_map]
    exact t.nodup_stems
  rw [withStem_eq, withStem_eq, buckets_removeGroup, Keyed.get?_filter hkeys,
    Keyed.get?_map (f := Bucket.without group) fun _ => rfl]
  cases Keyed.get? Bucket.stem p t.buckets with
  | none => rfl
  | some b =>
    rw [Option.map_some, Option.filter_some]
    dsimp only
    unfold Bucket.without
    cases b.rules.filter (·.group ≠ group) with
    | nil => rfl
    | cons n ns => rfl

/-- The matchers of a stem are those that a scan of the whole table finds. -/
theorem Filed.withStem_eq_filter (h : t.Filed) (p : String) :
    t.withStem p = t.toList.filter (·.stem = p) := by
  have hscan : ∀ bs : List Bucket, (∀ b ∈ bs, ∀ m ∈ b.rules, m.stem = b.stem) →
      (bs.flatMap Bucket.rules).filter (·.stem = p) =
        (bs.filter (·.stem = p)).flatMap Bucket.rules := by
    intro bs hbs
    induction bs with
    | nil => rfl
    | cons b bs ih =>
      obtain ⟨hb, hbs⟩ := List.forall_mem_cons.1 hbs
      rw [List.flatMap_cons, List.filter_append, ih hbs, List.filter_cons]
      split
      · rename_i hp
        have hall : b.rules.filter (·.stem = p) = b.rules :=
          List.filter_eq_self.2 fun m hm => (hb m hm).symm ▸ hp
        rw [hall, List.flatMap_cons]
      · rename_i hp
        have hnone : b.rules.filter (·.stem = p) = [] :=
          List.filter_eq_nil_iff.2 fun m hm => (hb m hm).symm ▸ hp
        rw [hnone, List.nil_append]
  rw [toList_eq, hscan t.buckets h, Keyed.filter_key t.nodup_stems, withStem_eq]
  cases Keyed.get? Bucket.stem p t.buckets with
  | none => rfl
  | some b => exact (List.append_nil b.rules).symm

/-- A running total of counts is the count of everything. -/
theorem foldl_countP {α : Type} {w : α → Nat} {g : α → List Matcher} {p : Matcher → Bool}
    {xs : List α} (h : ∀ x ∈ xs, w x = (g x).countP p) (n : Nat) :
    xs.foldl (fun n x => n + w x) n = n + (xs.flatMap g).countP p := by
  induction xs generalizing n with
  | nil => rfl
  | cons x xs ih =>
    obtain ⟨hx, hxs⟩ := List.forall_mem_cons.1 h
    rw [List.foldl_cons, ih hxs, hx, List.flatMap_cons, List.countP_append, Nat.add_assoc]

/-- What is counted as removed is what the group has in the table. -/
theorem withdraw_fst (t : MatcherTable) (group : String) :
    (t.withdraw group).1 = t.toList.countP (·.group = group) := by
  have hbucket : ∀ b : Bucket, b.rules.length - (b.without group).rules.length =
      b.rules.countP (·.group = group) := by
    intro b
    have hsplit := b.rules.length_eq_countP_add_countP (·.group = group)
    have hleft : (b.without group).rules.length =
        b.rules.countP fun m => ¬decide (m.group = group) = true := by
      rw [List.countP_eq_length_filter]
      simp [Bucket.without]
    omega
  have hshelf : ∀ s : Shelf, s.held group =
      (s.buckets.flatMap Bucket.rules).countP (·.group = group) := by
    intro s
    exact (foldl_countP (fun b _ => hbucket b) 0).trans (Nat.zero_add _)
  exact (foldl_countP (fun s _ => hshelf s) 0).trans (Nat.zero_add _)

/-! ## Probes by length -/

/-- Beginnings of a text, in order, grow in bytes. -/
theorem inits_longer (cs : List Char) : cs.inits.Pairwise fun p q =>
    (String.ofList p).utf8ByteSize < (String.ofList q).utf8ByteSize := by
  induction cs with
  | nil => exact List.pairwise_singleton _ _
  | cons c cs ih =>
    have hc := c.utf8Size_pos
    rw [List.inits_cons]
    refine List.pairwise_cons.2 ⟨fun q hq => ?_, List.pairwise_map.2 (ih.imp fun {p q} hpq => ?_)⟩
    · obtain ⟨r, -, rfl⟩ := List.mem_map.1 hq
      rw [utf8ByteSize_cons]
      exact Nat.lt_of_lt_of_le hc (Nat.le_add_right _ _)
    · rw [utf8ByteSize_cons, utf8ByteSize_cons]
      omega

/-- Shelves from the longest down give what the beginnings of the name give from the longest down. -/
theorem matching_inits (t : MatcherTable) (name : String) :
    t.matching name = name.toList.inits.reverse.flatMap fun p => t.withStem (String.ofList p) := by
  have hbuckets : t.buckets.reverse.filter (fun b => isStemOf b.stem name) =
      name.toList.inits.reverse.filterMap
        fun p => Keyed.get? Bucket.stem (String.ofList p) t.buckets := by
    have hleft : (t.buckets.reverse.filter fun b => isStemOf b.stem name).Pairwise
        fun a b => StemBefore b.stem a.stem :=
      .filter _ (List.pairwise_reverse.2 t.ranked)
    have hright : (name.toList.inits.reverse.filterMap fun p =>
        Keyed.get? Bucket.stem (String.ofList p) t.buckets).Pairwise
        fun a b => StemBefore b.stem a.stem := by
      refine List.pairwise_filterMap.2 (List.pairwise_reverse.2 ?_)
      refine (inits_longer name.toList).imp fun {p q} hpq a ha b hb => .inl ?_
      rw [(Keyed.get?_mem ha).2, (Keyed.get?_mem hb).2]
      exact hpq
    -- Both are in strict order, so it is enough that they have the same buckets.
    refine List.Perm.eq_of_pairwise (fun a b _ _ hab hba => ?_) hleft hright ?_
    · exact absurd (hab.trans hba) (StemBefore.irrefl _)
    · refine (List.perm_ext_iff_of_nodup (hleft.imp fun h he => ?_)
        (hright.imp fun h he => ?_)).2 fun b => ?_
      · exact h.ne (congrArg Bucket.stem he.symm)
      · exact h.ne (congrArg Bucket.stem he.symm)
      · simp only [List.mem_filter, List.mem_reverse, List.mem_filterMap, List.mem_inits,
          Keyed.get?_eq_some_iff t.nodup_stems]
        rw [isStemOf, List.isPrefixOf_iff_prefix]
        constructor
        · rintro ⟨hb, hp⟩
          exact ⟨b.stem.toList, hp, hb, String.ofList_toList.symm⟩
        · rintro ⟨p, hp, hb, hs⟩
          rw [hs, String.toList_ofList]
          exact ⟨hb, hp⟩
  rw [matching_eq, hbuckets, List.filterMap_eq_flatMap_toList, List.flatMap_assoc]
  refine List.flatMap_congr fun p _ => ?_
  rw [withStem_eq]
  cases Keyed.get? Bucket.stem (String.ofList p) t.buckets with
  | none => rfl
  | some b => exact List.append_nil b.rules

/-! ## The plain list -/

/-- A change of a table. -/
inductive Step where
  | insert (m : Matcher)
  | removeGroup (group : String)
deriving DecidableEq, Repr

namespace Step

/-- The change of the table. -/
def next (s : Step) (t : MatcherTable) : MatcherTable :=
  match s with
  | insert m => (t.insert m).2
  | removeGroup group => t.removeGroup group

/-- The same change of a plain list: a new rule is added at the end, a known one refreshed in its
place. -/
def note (s : Step) (ms : List Matcher) : List Matcher :=
  match s with
  | insert m => if ms.any m.sameRule then m.refresh ms else ms ++ [m]
  | removeGroup group => ms.filter (·.group ≠ group)

/-- A step settles anew what becomes of the rule of a matcher. -/
def Concerns (s : Step) (m : Matcher) : Prop :=
  match s with
  | insert n => n.stem = m.stem ∧ n.group = m.group ∧ n.role = m.role
  | removeGroup group => m.group = group

end Step

/-- The table after a course of changes, from the empty one. -/
def after (steps : List Step) : MatcherTable := steps.foldl (fun t s => s.next t) empty

/-- The plain list after a course of changes. -/
def noted (steps : List Step) : List Matcher := steps.foldl (fun ms s => s.note ms) []

/-- A matcher was given for its rule last, and its group not removed since. -/
def Lasting (steps : List Step) (m : Matcher) : Prop :=
  ∃ xs ys, steps = xs ++ .insert m :: ys ∧ ∀ s ∈ ys, ¬s.Concerns m

/-- The table holds the matchers of a list, each stem in the order of the list. -/
structure Keeps (t : MatcherTable) (ms : List Matcher) : Prop where
  filed : t.Filed
  stems : ∀ p, t.withStem p = ms.filter (·.stem = p)
  rules : (ms.map Matcher.rule).Nodup
  counted : t.count = ms.length

namespace Keeps

variable {ms : List Matcher}

theorem perm (h : Keeps t ms) : t.toList.Perm ms := by
  refine List.perm_iff_count.2 fun m => ?_
  have hsame := (h.filed.withStem_eq_filter m.stem).symm.trans (h.stems m.stem)
  have hcount := congrArg (List.count m) hsame
  rwa [List.count_filter (by simp), List.count_filter (by simp)] at hcount

theorem empty : Keeps .empty [] where
  filed _ h := absurd h List.not_mem_nil
  stems _ := rfl
  rules := List.nodup_nil
  counted := rfl

/-- The stem tells whether the rule is there. -/
theorem any_sameRule (h : Keeps t ms) (m : Matcher) :
    (t.withStem m.stem).any m.sameRule = ms.any m.sameRule := by
  rw [h.stems, List.any_filter]
  refine congrArg ms.any (funext fun n => ?_)
  cases hs : m.sameRule n with
  | false => exact Bool.and_false _
  | true =>
    have hstem : m.stem = n.stem := congrArg Prod.fst (Matcher.sameRule_iff.1 hs)
    simp [hstem]

theorem insert (h : Keeps t ms) (m : Matcher) :
    Keeps (t.insert m).2 (Step.note (.insert m) ms) := by
  have hany := h.any_sameRule m
  have hcount : (t.insert m).2.count = if ms.any m.sameRule then t.count else t.count + 1 := by
    rw [← hany]
    unfold MatcherTable.insert
    split <;> rfl
  refine ⟨h.filed.insert m, fun p => ?_, ?_, ?_⟩
  · rw [withStem_insert]
    by_cases hp : p = m.stem
    · subst hp
      rw [if_pos rfl, hany, Step.note]
      split
      · rw [Matcher.filter_refresh, if_pos rfl, h.stems]
      · rw [List.filter_append, List.filter_cons_of_pos (by simp), List.filter_nil, h.stems]
    · rw [if_neg hp, Step.note, h.stems]
      split
      · rw [Matcher.filter_refresh, if_neg hp]
      · rw [List.filter_append, List.filter_cons_of_neg (by simpa using Ne.symm hp),
          List.filter_nil, List.append_nil]
  · rw [Step.note]
    split
    · rw [m.map_rule_refresh]
      exact h.rules
    · rename_i hnew
      rw [List.map_append, List.nodup_append]
      refine ⟨h.rules, List.nodup_singleton _, fun r hr s hs he => hnew ?_⟩
      obtain ⟨n, hn, rfl⟩ := List.mem_map.1 hr
      have hsame := he.trans (List.mem_singleton.1 hs)
      exact List.any_eq_true.2 ⟨n, hn, Matcher.sameRule_iff.2 hsame.symm⟩
  · rw [hcount, h.counted, Step.note]
    split
    · exact (m.length_refresh ms).symm
    · rw [List.length_append, List.length_singleton]

theorem withdrawn (h : Keeps t ms) (group : String) :
    (t.withdraw group).1 = ms.countP (·.group = group) :=
  (t.withdraw_fst group).trans (h.perm.countP_eq _)

theorem removeGroup (h : Keeps t ms) (group : String) :
    Keeps (t.removeGroup group) (Step.note (.removeGroup group) ms) := by
  refine ⟨h.filed.removeGroup group, fun p => ?_, ?_, ?_⟩
  · rw [withStem_removeGroup, h.stems, Step.note, List.filter_filter, List.filter_filter]
    simp only [Bool.and_comm]
  · exact h.rules.sublist (List.filter_sublist.map _)
  · have hcount : (t.removeGroup group).count = t.count - (t.withdraw group).1 := rfl
    have hsplit := ms.length_eq_countP_add_countP (·.group = group)
    have hleft : (Step.note (.removeGroup group) ms).length =
        ms.countP fun m => ¬decide (m.group = group) = true := by
      rw [List.countP_eq_length_filter]
      simp [Step.note]
    rw [hcount, h.counted, h.withdrawn]
    omega

/-- Table and list go together. -/
theorem next (h : Keeps t ms) (s : Step) : Keeps (s.next t) (s.note ms) := by
  cases s with
  | insert m => exact h.insert m
  | removeGroup group => exact h.removeGroup group

theorem run (h : Keeps t ms) (steps : List Step) :
    Keeps (steps.foldl (fun t s => s.next t) t) (steps.foldl (fun ms s => s.note ms) ms) := by
  induction steps generalizing t ms with
  | nil => exact h
  | cons s steps ih => exact ih (h.next s)

theorem matching (h : Keeps t ms) (name : String) : t.matching name =
    name.toList.inits.reverse.flatMap fun p => ms.filter (·.stem = String.ofList p) := by
  rw [matching_inits]
  simp only [h.stems]

/-- Matchers of one stem are distinct, and those of two stems are not the same. -/
theorem nodup_matching (h : Keeps t ms) (name : String) : (t.matching name).Nodup := by
  have hms : ms.Nodup := .of_map _ h.rules
  rw [h.matching]
  refine List.pairwise_flatMap.2 ⟨fun p _ => hms.filter _, List.pairwise_reverse.2 ?_⟩
  refine (inits_longer name.toList).imp fun {p q} hpq m hm n hn he => ?_
  have hp := of_decide_eq_true (List.mem_filter.1 hn).2
  have hq := of_decide_eq_true (List.mem_filter.1 hm).2
  rw [← hp, ← hq, he] at hpq
  exact Nat.lt_irrefl _ hpq

end Keeps

theorem keeps_after (steps : List Step) : Keeps (after steps) (noted steps) :=
  Keeps.empty.run steps

/-! ## What is in the list -/

theorem Step.mem_note {s : Step} {ms : List Matcher} (hn : (ms.map Matcher.rule).Nodup) :
    m ∈ s.note ms ↔ s = .insert m ∨ m ∈ ms ∧ ¬s.Concerns m := by
  cases s with
  | insert n =>
    have hconcerns : Step.Concerns (.insert n) m ↔ n.rule = m.rule := by
      simp [Concerns, Matcher.rule]
    rw [hconcerns, Step.note, insert.injEq]
    split
    · rename_i hknown
      rw [Matcher.mem_refresh hn hknown, eq_comm]
    · rename_i hnew
      rw [List.mem_append, List.mem_singleton, or_comm, eq_comm]
      refine or_congr_right ⟨fun hm => ⟨hm, fun hrule => hnew ?_⟩, And.left⟩
      exact List.any_eq_true.2 ⟨m, hm, Matcher.sameRule_iff.2 hrule⟩
  | removeGroup group =>
    simp [Step.note, Concerns]

theorem lasting_concat {steps : List Step} {s : Step} :
    Lasting (steps ++ [s]) m ↔ s = .insert m ∨ Lasting steps m ∧ ¬s.Concerns m := by
  constructor
  · rintro ⟨xs, ys, he, hys⟩
    rcases List.eq_nil_or_concat ys with rfl | ⟨zs, z, rfl⟩
    · have hlast := List.append_inj_right' he rfl
      exact .inl (List.singleton_inj.1 hlast)
    · rw [List.concat_eq_append, ← List.cons_append, ← List.append_assoc] at he
      obtain ⟨hsteps, hz⟩ := List.append_inj' he rfl
      have hz := List.singleton_inj.1 hz
      refine .inr ⟨⟨xs, zs, hsteps, fun s hs => hys s (by simp [hs])⟩, ?_⟩
      rw [hz]
      exact hys z (by simp)
  · rintro (rfl | ⟨⟨xs, ys, rfl, hys⟩, hs⟩)
    · exact ⟨steps, [], rfl, fun _ h => absurd h List.not_mem_nil⟩
    · refine ⟨xs, ys ++ [s], by simp, fun r hr => ?_⟩
      rcases List.mem_append.1 hr with hr | hr
      · exact hys r hr
      · exact List.mem_singleton.1 hr ▸ hs

theorem mem_noted (steps : List Step) : m ∈ noted steps ↔ Lasting steps m := by
  induction steps using List.reverseRecOn with
  | nil => simp [noted, Lasting]
  | append_singleton steps s ih =>
    have hnoted : noted (steps ++ [s]) = s.note (noted steps) := by
      unfold noted
      rw [List.foldl_append]
      rfl
    rw [hnoted, Step.mem_note (keeps_after steps).rules, ih, lasting_concat]

/-! ## Table and scan -/

/-- Whatever a table is asked, a scan of the list answers. -/
structure Scans (t : MatcherTable) (ms : List Matcher) : Prop where
  stored : t.toList.Perm ms
  /-- For each beginning of the name, the longest first, the matchers of this stem as they came. -/
  matching : ∀ name, t.matching name =
    name.toList.inits.reverse.flatMap fun p => ms.filter (·.stem = String.ofList p)
  found : ∀ name m, m ∈ t.matching name ↔ m ∈ ms ∧ m.accepts name = true
  once : ∀ name, (t.matching name).Nodup
  stems : ∀ p, t.withStem p = ms.filter (·.stem = p)
  single : ms.Pairwise fun a b => ¬(a.stem = b.stem ∧ a.group = b.group ∧ a.role = b.role)
  size : t.size = ms.length
  withdrawn : ∀ group, (t.withdraw group).1 = ms.countP (·.group = group)
  kept : ∀ group, (t.withdraw group).2.toList = t.toList.filter (·.group ≠ group)

/-- After any course of insertions and removals the index agrees with a scan of the plain list, which
has the matchers that were given last for their rules. -/
theorem index_scans (steps : List Step) :
    Scans (after steps) (noted steps) ∧ ∀ m, m ∈ noted steps ↔ Lasting steps m := by
  have h := keeps_after steps
  refine ⟨⟨h.perm, h.matching, fun name m => ?_, h.nodup_matching, h.stems, ?_, h.counted,
    h.withdrawn, toList_removeGroup _⟩, fun m => mem_noted steps⟩
  · rw [h.filed.mem_matching, h.perm.mem_iff]
  · refine (List.pairwise_map.1 h.rules).imp fun hne hsame => hne ?_
    simpa [Matcher.rule] using hsame

/-- The first byte of a name may be no beginning of it, while two and three bytes are. -/
example :
    let rule := fun stem => Step.insert ⟨stem, "uplink", .destination, .push, .classicalFlooding⟩
    ((after [rule "e", rule "é", rule "éa", rule ""]).matching "éa0").map (·.stem) =
      ["éa", "é", ""] := by
  decide

end MatcherTable
end MulticastRelay
